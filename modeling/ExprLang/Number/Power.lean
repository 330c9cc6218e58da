import ExprLang.Number.Binary

/-! Powers of floating point numbers, through their bit patterns. -/

namespace ExprLang.Binary

/-- The bits of a number: sign, exponent and fraction. -/
def toBits (x : Double) : UInt64 :=
  let sign (s : Bool) : Nat := if s then twoPow 63 else 0
  match x with
  | nan => 0x7ff8000000000000
  | infinite s => UInt64.ofNat (sign s + 0x7ff0000000000000)
  | finite s m e =>
    if m < twoPow 52 then UInt64.ofNat (sign s + m)
    else UInt64.ofNat (sign s + (e + 1075).toNat * twoPow 52 + (m - twoPow 52))

/-- The number that these bits stand for. -/
def ofBits (bits : UInt64) : Double :=
  let n : Nat := bits.toNat
  let negative := decide (twoPow 63 ≤ n)
  let exponent : Nat := n / twoPow 52 % twoPow 11
  let fraction : Nat := n % twoPow 52
  if exponent = 2047 then (if fraction = 0 then .infinite negative else .nan)
  else if exponent = 0 then .finite negative fraction (-1074)
  else .finite negative (twoPow 52 + fraction) ((exponent : Int) - 1075)

/-- The power of two numbers. -/
def pow (x y : Double) : Double :=
  ofBits (Float.pow (Float.ofBits x.toBits) (Float.ofBits y.toBits)).toBits

end ExprLang.Binary
