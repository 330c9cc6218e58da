import ExprLang.Number.Binary

/-! The decimal text of floating point numbers. A number is written with the fewest digits that
read back as the same number, and of those with the nearest. -/

namespace ExprLang

namespace Binary
variable {f : FloatFormat}

/-! ## Shortest digits -/

/-- The exponent of the leading decimal digit of the positive ratio `num / den`. -/
def decimalExponent (num den : Nat) : Int :=
  let guess : Int := ((Nat.toDigits 10 num).length : Int) - (Nat.toDigits 10 den).length
  if den * tenPow guess.toNat ≤ num * tenPow (-guess).toNat then guess else guess - 1

/-- A positive number between two bounds, all of them over one denominator. The numbers that
round to it lie between the bounds, which belong to them where `closed`. -/
structure Neighbourhood where
  value : Nat
  low : Nat
  high : Nat
  den : Nat
  closed : Bool

/-- The neighbourhood of `m * 2 ^ e`. It reaches half as far down from a power of two. -/
def neighbourhood (f : FloatFormat) (m : Nat) (e : Int) : Neighbourhood :=
  let scale := twoPow (e - 2).toNat
  let below := if m = twoPow (f.precision - 1) ∧ f.minExponent < e then 1 else 2
  { value := 4 * m * scale
    low := (4 * m - below) * scale
    high := (4 * m + 2) * scale
    den := twoPow (2 - e).toNat
    closed := m % 2 == 0 }

namespace Neighbourhood

/-- The number `d * 10 ^ k` lies between the bounds. -/
def holds (n : Neighbourhood) (d : Nat) (k : Int) : Bool :=
  let x := d * tenPow k.toNat * n.den
  let unit := tenPow (-k).toNat
  if n.closed then n.low * unit ≤ x && x ≤ n.high * unit
  else n.low * unit < x && x < n.high * unit

/-- The number of the grid of multiples of `10 ^ k` that lies between the bounds, if any; of two,
the nearer one, or the greater one where both are as near. -/
def onGrid? (n : Neighbourhood) (k : Int) : Option Nat :=
  let num := n.value * tenPow (-k).toNat
  let den := n.den * tenPow k.toNat
  let d := num / den
  match n.holds d k, n.holds (d + 1) k with
  | false, false => none
  | true, false => some d
  | false, true => some (d + 1)
  | true, true => some (if 2 * (num % den) < den then d else d + 1)

/-- The digits of the coarsest grid that meets the neighbourhood, and the exponent of the grid.
`places` bounds how many grids are tried. -/
def coarsest (n : Neighbourhood) : Nat → Int → Nat × Int
  | 0, k => (n.value * tenPow (-k).toNat / (n.den * tenPow k.toNat), k)
  | places + 1, k =>
    match n.onGrid? k with
    | some d => (d, k)
    | none => coarsest n places (k - 1)

end Neighbourhood

/-- The digits of a positive number and the exponent of the last one. -/
def shortest (f : FloatFormat) (m : Nat) (e : Int) : Nat × Int :=
  let n := neighbourhood f m e
  n.coarsest 18 (decimalExponent n.value n.den + 1)

/-! ## Writing -/

/-- Digits with a point after the first `whole` ones, and at least one digit on either side. -/
def positional (digits : List Char) (whole : Int) : String :=
  if whole ≤ 0 then
    "0." ++ String.ofList (List.replicate (-whole).toNat '0' ++ digits)
  else
    let padded := digits ++ List.replicate (whole.toNat - digits.length) '0'
    let fraction := padded.drop whole.toNat
    String.ofList (padded.take whole.toNat) ++ "." ++
      (if fraction.isEmpty then "0" else String.ofList fraction)

/-- Digits with a point after the first one, and the exponent of that one. -/
def scientific (digits : List Char) (exponent : Int) : String :=
  positional digits 1 ++ "E" ++ toString exponent

/-- The text of a number: positional from a thousandth up to below ten million, else with an
exponent, and always with a point. -/
def toText : Binary f → String
  | nan => "NaN"
  | infinite s => if s then "-Infinity" else "Infinity"
  | finite s m e =>
    let sign := if s then "-" else ""
    if m = 0 then sign ++ "0.0"
    else
      let (d, k) := shortest f m e
      let digits := Nat.toDigits 10 d
      let leading := k + digits.length - 1
      if -3 ≤ leading && leading < 7 then sign ++ positional digits (leading + 1)
      else sign ++ scientific digits leading

/-! ## Reading -/

/-- Why a text is not a number. -/
inductive TextFault where
  | empty | invalid
deriving DecidableEq, Repr

def TextFault.message : TextFault → String
  | empty => "cannot parse float from empty string"
  | invalid => "invalid float literal"

def isDecimalDigit (c : Char) : Bool := '0' ≤ c && c ≤ '9'

/-- The value of a row of digits. -/
def digitsValue (cs : List Char) : Nat := cs.foldl (fun n c => 10 * n + (c.toNat - '0'.toNat)) 0

/-- A sign that may stand in front, and the rest. -/
def splitSign : List Char → Bool × List Char
  | '-' :: cs => (true, cs)
  | '+' :: cs => (false, cs)
  | cs => (false, cs)

/-- The exponent that makes up all of this text; the empty text is the exponent zero. -/
def exponentValue? : List Char → Option Int
  | [] => some 0
  | c :: cs =>
    if c == 'e' || c == 'E' then
      let (negative, digits) := splitSign cs
      if digits.isEmpty || !digits.all isDecimalDigit then none
      else some (if negative then -(digitsValue digits : Int) else digitsValue digits)
    else none

/-- Digits that lie further than this many places from the point neither show nor overflow. -/
def placeLimit : Int := 400

/-- The number of `digits`, the last one at this exponent. -/
def ofDigits (negative : Bool) (digits : List Char) (exponent : Int) : Binary f :=
  let significant := digits.dropWhile (· == '0')
  if significant.isEmpty then zero negative
  else if exponent + significant.length > placeLimit then infinite negative
  else if exponent + significant.length < -placeLimit then zero negative
  else ofDecimal negative (digitsValue significant) exponent

/-- A decimal number: digits, perhaps a point and digits, at least one digit in all, perhaps an
exponent. -/
def ofUnsigned? (negative : Bool) (cs : List Char) : Option (Binary f) :=
  let whole := cs.takeWhile isDecimalDigit
  let (fraction, after) :=
    match cs.dropWhile isDecimalDigit with
    | '.' :: rest => (rest.takeWhile isDecimalDigit, rest.dropWhile isDecimalDigit)
    | rest => ([], rest)
  if whole.isEmpty && fraction.isEmpty then none
  else (exponentValue? after).map fun e => ofDigits negative (whole ++ fraction) (e - fraction.length)

/-- The words for numbers that no digits express, in any case of letters. -/
def ofWord? (negative : Bool) (cs : List Char) : Option (Binary f) :=
  let word := String.ofList (cs.map Char.toLower)
  if word == "inf" || word == "infinity" then some (infinite negative)
  else if word == "nan" then some nan
  else none

/-- The number that a text stands for. -/
def ofText (s : String) : Except TextFault (Binary f) :=
  if s.isEmpty then .error .empty
  else
    let (negative, cs) := splitSign s.toList
    match ofWord? negative cs <|> ofUnsigned? negative cs with
    | some x => .ok x
    | none => .error .invalid

end Binary

end ExprLang
