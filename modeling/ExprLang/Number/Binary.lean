/-! Binary floating point numbers, rounded to nearest with ties to even. Every operation is exact
arithmetic on integers followed by one rounding. -/

namespace ExprLang

/-! ## Powers of the two bases in which numbers are written -/

def twoPow (n : Nat) : Nat := Nat.pow 2 n

def tenPow (n : Nat) : Nat := Nat.pow 10 n

/-! ## Formats and their numbers -/

/-- A binary format: the bits of its significands, and the exponent of the leading bit of its
largest numbers. -/
structure FloatFormat where
  precision : Nat
  maxExponent : Int
deriving DecidableEq, Repr

namespace FloatFormat

def single : FloatFormat := ⟨24, 127⟩

def double : FloatFormat := ⟨53, 1023⟩

/-- The least exponent of a significand. -/
def minExponent (f : FloatFormat) : Int := 2 - f.maxExponent - f.precision

end FloatFormat

/-- A number of a binary format: `significand * 2 ^ exponent`, negative or not. -/
inductive Binary (f : FloatFormat) where
  | nan
  | infinite (negative : Bool)
  | finite (negative : Bool) (significand : Nat) (exponent : Int)
deriving DecidableEq, Repr

abbrev Single := Binary .single

abbrev Double := Binary .double

namespace Binary
variable {f : FloatFormat}

def zero (negative : Bool) : Binary f := .finite negative 0 f.minExponent

instance : Inhabited (Binary f) := ⟨zero false⟩

/-- The exponent of the leading bit of the positive ratio `num / den`. -/
def ratioExponent (num den : Nat) : Int :=
  let guess : Int := (Nat.log2 num : Int) - (Nat.log2 den : Int)
  if den * twoPow guess.toNat ≤ num * twoPow (-guess).toNat then guess else guess - 1

/-- The quotient rounded to nearest, a tie to the even neighbour. -/
def divideEven (num den : Nat) : Nat :=
  let q := num / den
  let r := num % den
  if 2 * r < den then q
  else if den < 2 * r then q + 1
  else if q % 2 = 0 then q else q + 1

/-- The number of the format nearest to `num / den`. -/
def ofRatio (negative : Bool) (num den : Nat) : Binary f :=
  if num = 0 then zero negative
  else
    let exponent := max (ratioExponent num den - (f.precision - 1)) f.minExponent
    let significand := divideEven (num * twoPow (-exponent).toNat) (den * twoPow exponent.toNat)
    let (significand, exponent) :=
      if significand = twoPow f.precision then (twoPow (f.precision - 1), exponent + 1)
      else (significand, exponent)
    if exponent + f.precision - 1 > f.maxExponent then .infinite negative
    else .finite negative significand exponent

/-- The number of the format nearest to `significand * 2 ^ exponent`. -/
def ofScaled (negative : Bool) (significand : Nat) (exponent : Int) : Binary f :=
  ofRatio negative (significand * twoPow exponent.toNat) (twoPow (-exponent).toNat)

def ofInt (n : Int) : Binary f := ofRatio (decide (n < 0)) n.natAbs 1

/-- The number of the format nearest to `digits * 10 ^ exponent`. -/
def ofDecimal (negative : Bool) (digits : Nat) (exponent : Int) : Binary f :=
  ofRatio negative (digits * tenPow exponent.toNat) (tenPow (-exponent).toNat)

/-- The nearest number of another format. -/
def convert {g : FloatFormat} : Binary f → Binary g
  | nan => nan
  | infinite s => infinite s
  | finite s m e => ofScaled s m e

def isNaN : Binary f → Bool
  | nan => true
  | _ => false

def isFinite : Binary f → Bool
  | finite _ _ _ => true
  | _ => false

def isNegative : Binary f → Bool
  | nan => false
  | infinite s => s
  | finite s _ _ => s

def neg : Binary f → Binary f
  | nan => nan
  | infinite s => infinite !s
  | finite s m e => finite (!s) m e

def abs : Binary f → Binary f
  | nan => nan
  | infinite _ => infinite false
  | finite _ m e => finite false m e

/-- A significand with its sign, at an exponent not above its own. -/
def aligned (negative : Bool) (m : Nat) (e least : Int) : Int :=
  let n : Int := m * twoPow (e - least).toNat
  if negative then -n else n

/-! ## Order -/

/-- How two numbers compare; no NaN compares with anything. -/
def compare? : Binary f → Binary f → Option Ordering
  | nan, _ => none
  | _, nan => none
  | infinite s, infinite t => some (compare (if s then (0 : Nat) else 1) (if t then 0 else 1))
  | infinite s, finite _ _ _ => some (if s then .lt else .gt)
  | finite _ _ _, infinite t => some (if t then .gt else .lt)
  | finite s m d, finite t n e =>
    let least := min d e
    some (compare (aligned s m d least) (aligned t n e least))

/-- Equality of the numbers meant: zeros of either sign are equal, a NaN equals nothing. -/
def equal (x y : Binary f) : Bool := compare? x y == some .eq

/-! ## Arithmetic -/

def add : Binary f → Binary f → Binary f
  | nan, _ => nan
  | _, nan => nan
  | infinite s, infinite t => if s = t then infinite s else nan
  | infinite s, finite _ _ _ => infinite s
  | finite _ _ _, infinite t => infinite t
  | finite s m d, finite t n e =>
    let least := min d e
    let sum := aligned s m d least + aligned t n e least
    if sum = 0 then zero (s && t) else ofScaled (decide (sum < 0)) sum.natAbs least

def sub (x y : Binary f) : Binary f := x.add y.neg

def mul : Binary f → Binary f → Binary f
  | nan, _ => nan
  | _, nan => nan
  | infinite s, infinite t => infinite (s != t)
  | infinite s, finite t n _ => if n = 0 then nan else infinite (s != t)
  | finite s m _, infinite t => if m = 0 then nan else infinite (s != t)
  | finite s m d, finite t n e => ofScaled (s != t) (m * n) (d + e)

def div : Binary f → Binary f → Binary f
  | nan, _ => nan
  | _, nan => nan
  | infinite _, infinite _ => nan
  | infinite s, finite t _ _ => infinite (s != t)
  | finite s _ _, infinite t => zero (s != t)
  | finite s m d, finite t n e =>
    if n = 0 then (if m = 0 then nan else infinite (s != t))
    else ofRatio (s != t) (m * twoPow (d - e).toNat) (n * twoPow (e - d).toNat)

/-- The remainder of the division whose quotient is cut off; it has the sign of the dividend. -/
def rem : Binary f → Binary f → Binary f
  | nan, _ => nan
  | _, nan => nan
  | infinite _, _ => nan
  | finite s m d, infinite _ => finite s m d
  | finite s m d, finite _ n e =>
    if n = 0 then nan
    else
      let least := min d e
      ofScaled s ((m * twoPow (d - least).toNat) % (n * twoPow (e - least).toNat)) least

/-- The greater of two numbers, the second of two equal ones; a NaN gives way. -/
def maximum (x y : Binary f) : Binary f :=
  if y.isNaN || compare? x y == some .gt then x else y

/-- The lesser of two numbers, the second of two equal ones; a NaN gives way. -/
def minimum (x y : Binary f) : Binary f :=
  if y.isNaN || compare? x y == some .lt then x else y

/-! ## Whole numbers -/

/-- The integer nearest to a finite number toward zero. -/
def truncate? : Binary f → Option Int
  | finite s m e =>
    let n : Int := ((m * twoPow e.toNat) / twoPow (-e).toNat : Nat)
    some (if s then -n else n)
  | _ => none

/-- A number with a fraction; numbers without one keep their form under the roundings below. -/
def hasFraction : Binary f → Bool
  | finite _ m e => decide (e < 0) && m % twoPow (-e).toNat != 0
  | _ => false

/-- The greatest whole number that is not greater. -/
def floor : Binary f → Binary f
  | finite s m e =>
    if (finite s m e : Binary f).hasFraction then
      let n := m / twoPow (-e).toNat
      ofScaled s (if s then n + 1 else n) 0
    else finite s m e
  | x => x

/-- The least whole number that is not less. -/
def ceil (x : Binary f) : Binary f := x.neg.floor.neg

/-- The square root. -/
def sqrt : Binary f → Binary f
  | nan => nan
  | infinite s => if s then nan else infinite false
  | finite s m e =>
    if m = 0 then finite s m e
    else if s then nan
    else
      -- an even exponent, and enough bits below the point that the rest only breaks ties
      let shift := 2 * (f.precision + 2) + (if (e - 2 * (f.precision + 2)) % 2 = 0 then 0 else 1)
      let wide := m * twoPow shift
      let root := wide.sqrt
      let sticky := if root * root = wide then 0 else 1
      ofScaled false (2 * root + sticky) ((e - shift) / 2 - 1)

end Binary

end ExprLang
