import ExprLang.Number.IntegerText

/-! Decimal numbers of any size: `digits * 10 ^ (-scale)`. Equal numbers may differ in scale. -/

namespace ExprLang

structure Decimal where
  digits : Int
  scale : Int
deriving DecidableEq, Inhabited, Repr

namespace Decimal

def ofInt (n : Int) : Decimal := ⟨n, 0⟩

/-- The digits at a scale not less than that of the number. -/
def digitsAt (d : Decimal) (scale : Int) : Int := d.digits * tenPow (scale - d.scale).toNat

def neg (d : Decimal) : Decimal := ⟨-d.digits, d.scale⟩

def isZero (d : Decimal) : Bool := d.digits == 0

/-- The number of places from the first digit to the point. -/
def magnitude (d : Decimal) : Int := (Nat.toDigits 10 d.digits.natAbs).length - d.scale

/-- Orders by the numbers meant, whatever the scales. Only numbers of the same sign and magnitude
are brought to one scale. -/
def compare (a b : Decimal) : Ordering :=
  let signs := Ord.compare a.digits.sign b.digits.sign
  if signs != .eq || a.isZero then signs
  else if a.magnitude == b.magnitude then
    let scale := max a.scale b.scale
    Ord.compare (a.digitsAt scale) (b.digitsAt scale)
  else
    let sizes := Ord.compare a.magnitude b.magnitude
    if a.digits < 0 then sizes.swap else sizes

def equal (a b : Decimal) : Bool := compare a b == .eq

/-- The sum, at the larger scale. -/
def add (a b : Decimal) : Decimal :=
  let scale := max a.scale b.scale
  ⟨a.digitsAt scale + b.digitsAt scale, scale⟩

/-- The difference, at the larger scale unless an operand is zero. -/
def sub (a b : Decimal) : Decimal :=
  if b.isZero then a
  else if a.isZero then b.neg
  else
    let scale := max a.scale b.scale
    ⟨a.digitsAt scale - b.digitsAt scale, scale⟩

/-- The number one, at any scale. -/
def isOne (d : Decimal) : Bool := d.equal ⟨1, 0⟩

/-- The product, at the sum of the scales; a factor of one leaves the other one as it is. -/
def mul (a b : Decimal) : Decimal :=
  if a.isOne then b
  else if b.isOne then a
  else ⟨a.digits * b.digits, a.scale + b.scale⟩

/-- The number of zeros at the end of so many digits of a number. -/
def trailingZeros (n : Nat) : Nat → Nat
  | 0 => 0
  | width + 1 => if n % 10 = 0 then trailingZeros (n / 10) width + 1 else 0

/-- The same number with the fewest digits. -/
def normalized (d : Decimal) : Decimal :=
  if d.isZero then ⟨0, 0⟩
  else
    let zeros := trailingZeros d.digits.natAbs (Nat.toDigits 10 d.digits.natAbs).length
    ⟨d.digits.tdiv (tenPow zeros), d.scale - zeros⟩

/-- Ten to the power of a scale, of which only the low 32 bits count. -/
def tenTo (scale : Int) : Int := tenPow (scale % twoPow 32).toNat

/-- The integer nearest to the number toward zero, as far as `tenTo` reaches. -/
def truncate (d : Decimal) : Int :=
  if 0 < d.scale then d.digits.tdiv (tenTo d.scale) else d.digits * tenTo (-d.scale)

/-- The quotient at the scale of the dividend, rounded to nearest with ties away from zero; none
where the divisor is zero. -/
def divideHalfUp? (a b : Decimal) : Option Decimal :=
  if b.isZero then none
  else
    let num := if 0 ≤ b.scale then a.digits * tenTo b.scale else a.digits
    let den := if 0 ≤ b.scale then b.digits else b.digits * tenTo (-b.scale)
    let quotient := num.tdiv den
    let remainder := num.tmod den
    let digits :=
      if 2 * remainder.natAbs < den.natAbs then quotient
      else if decide (num < 0) != decide (den < 0) then quotient - 1
      else quotient + 1
    some ⟨digits, a.scale⟩

/-! ## Text -/

/-- Zeros after the point above which a number is written with an exponent. -/
def leadingZeroLimit : Int := 5

/-- Zeros before the point above which a number is written with an exponent. -/
def trailingZeroLimit : Int := 15

/-- Digits that stand for a whole number of `10 ^ places`. -/
def wholeText (digits : List Char) (places : Int) : String :=
  if places > trailingZeroLimit then String.ofList digits ++ "e+" ++ toString places
  else String.ofList (digits ++ List.replicate places.toNat '0')

/-- Digits of which the last `scale` stand after the point. -/
def fractionText (digits : List Char) (scale : Int) : String :=
  let whole : Int := digits.length - scale
  if 0 < whole then
    String.ofList (digits.take whole.toNat) ++ "." ++ String.ofList (digits.drop whole.toNat)
  else if -whole > leadingZeroLimit then
    let fraction := digits.drop 1
    String.ofList (digits.take 1) ++ (if fraction.isEmpty then "" else "." ++ String.ofList fraction) ++
      "E" ++ toString (whole - 1)
  else "0." ++ String.ofList (List.replicate (-whole).toNat '0' ++ digits)

/-- The text of a number. Zero is `0` at every scale. -/
def toText (d : Decimal) : String :=
  if d.isZero then "0"
  else
    let digits := Nat.toDigits 10 d.digits.natAbs
    (if d.digits < 0 then "-" else "") ++
      (if d.scale ≤ 0 then wholeText digits (-d.scale) else fractionText digits d.scale)

/-- Why a text is not a decimal number. -/
inductive TextFault where
  | empty
  /-- The digits or the exponent are no integer. -/
  | integer (fault : IntegerText.Fault)
  /-- The scale does not fit 64 bits. -/
  | exponentOverflow (text : String)
deriving DecidableEq, Repr

def TextFault.message : TextFault → String
  | empty => "Failed to parse empty string"
  | integer fault => fault.message
  | exponentOverflow text => "Exponent overflow when parsing '" ++ text ++ "'"

/-- The digits before the exponent without their point, and how many of them follow it. A point
at the end counts for nothing. -/
def splitPoint (cs : List Char) : List Char × Nat :=
  match cs.dropWhile (· != '.') with
  | [] => (cs, 0)
  | [_] => (cs.takeWhile (· != '.'), 0)
  | _ :: trail => (cs.takeWhile (· != '.') ++ trail, (trail.filter (· != '_')).length)

def isExponentMark (c : Char) : Bool := c == 'e' || c == 'E'

/-- The number that a text stands for: an integer that may hold a point, perhaps an exponent. -/
def ofText (s : String) : Except TextFault Decimal :=
  let cs := s.toList
  let base := cs.takeWhile (!isExponentMark ·)
  let exponent : Except TextFault Int :=
    match cs.dropWhile (!isExponentMark ·) with
    | [] => .ok 0
    | _ :: rest => (IntegerText.ofWidth 128 (String.ofList rest)).mapError .integer
  match exponent with
  | .error e => .error e
  | .ok exponent =>
    if base.isEmpty then .error .empty
    else
      let (digits, places) := splitPoint base
      let scale : Int := places - exponent
      if scale < -(twoPow 63) || twoPow 63 ≤ scale then .error (.exponentOverflow s)
      else
        match IntegerText.unboundedChars digits with
        | .ok n => .ok ⟨n, scale⟩
        | .error e => .error (.integer e)

end Decimal

namespace Binary
variable {f : FloatFormat}

/-- The power of a number by repeated squaring, rounded at every step. -/
def powNat (base : Binary f) (n : Nat) (acc : Binary f) : Binary f :=
  if h : n = 0 then acc
  else powNat (base.mul base) (n / 2) (if n % 2 = 1 then acc.mul base else acc)
termination_by n
decreasing_by omega

/-- The number of decimal digits of a positive number, from the length of its binary form; it may
be one too large. -/
def roughLength (n : Nat) : Nat := (Nat.toDigits 10 (twoPow (n.log2 + 2))).length - 1

/-- How many decimal digits settle a binary number at the least. -/
def settlingDigits : Nat := 25

/-- How many decimal digits are dropped at a time beyond those that settle a number. -/
def droppedDigits : Nat := 19

/-- The number cut off to the digits that count for its binary form. -/
def leadingDigits (d : Decimal) : Decimal :=
  let groups := (roughLength d.digits.natAbs - settlingDigits) / droppedDigits
  ⟨d.digits.tdiv (tenPow (groups * droppedDigits)), d.scale - groups * droppedDigits⟩

/-- The number of a decimal. An integer is rounded once. Of any other number the leading digits
count: where some of them follow the point they are rounded once, else the number is a product of
rounded numbers. A scale of more than 32 bits gives an infinity. -/
def ofDecimalNumber (d : Decimal) : Binary f :=
  if d.scale = 0 then ofInt d.digits
  else
    let lead := leadingDigits d
    if d.isZero then zero false
    else if twoPow 31 ≤ lead.scale then .infinite (decide (d.digits < 0))
    else if 0 < lead.scale then
      ofDigits (decide (d.digits < 0)) (Nat.toDigits 10 lead.digits.natAbs) (-lead.scale)
    else (ofInt lead.digits).mul (powNat (ofInt 10) (-lead.scale).toNat (ofInt 1))

end Binary

end ExprLang
