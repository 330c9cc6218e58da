import ExprLang.Number.FloatText

/-! The decimal text of integers, of fixed widths and of any size. -/

namespace ExprLang.IntegerText

/-- Why a text is not an integer of the wanted range. -/
inductive Fault where
  | empty | invalidDigit | tooLarge | tooSmall
deriving DecidableEq, Repr

def Fault.message : Fault → String
  | empty => "cannot parse integer from empty string"
  | invalidDigit => "invalid digit found in string"
  | tooLarge => "number too large to fit in target type"
  | tooSmall => "number too small to fit in target type"

/-- The number that `value`, negative or not, becomes by these further digits; the first
character that is no digit or leaves the range `low` to `high` decides the fault. -/
def readDigits (low high : Int) (negative : Bool) (value : Int) : List Char → Except Fault Int
  | [] => .ok value
  | c :: cs =>
    if !Binary.isDecimalDigit c then .error .invalidDigit
    else
      let digit : Int := (c.toNat : Int) - '0'.toNat
      let next := if negative then 10 * value - digit else 10 * value + digit
      if next < low then .error .tooSmall
      else if high < next then .error .tooLarge
      else readDigits low high negative next cs

/-- The integer from `low` to `high` that a text stands for: perhaps a sign, then digits. -/
def bounded (low high : Int) (s : String) : Except Fault Int :=
  match s.toList with
  | [] => .error .empty
  | ['-'] => .error .invalidDigit
  | ['+'] => .error .invalidDigit
  | '-' :: cs => readDigits low high true 0 cs
  | '+' :: cs => readDigits low high false 0 cs
  | cs => readDigits low high false 0 cs

/-- The integer of so many bits, one of them for the sign, that a text stands for. -/
def ofWidth (bits : Nat) (s : String) : Except Fault Int :=
  bounded (-(twoPow (bits - 1))) (twoPow (bits - 1) - 1) s

/-- The number of digits that may hold underscores after the first one. -/
def natural (cs : List Char) : Except Fault Nat :=
  match cs with
  | [] => .error .empty
  | c :: rest =>
    if c == '_' || !(c :: rest).all (fun d => d == '_' || Binary.isDecimalDigit d) then
      .error .invalidDigit
    else .ok (Binary.digitsValue ((c :: rest).filter (· != '_')))

/-- The integer of any size that these characters stand for: perhaps a sign, then digits, which
may hold underscores after the first one. -/
def unboundedChars : List Char → Except Fault Int
  | '-' :: cs => (natural cs).map fun n => -(n : Int)
  | '+' :: cs => (natural cs).map fun n => (n : Int)
  | cs => (natural cs).map fun n => (n : Int)

def unbounded (s : String) : Except Fault Int := unboundedChars s.toList

end ExprLang.IntegerText
