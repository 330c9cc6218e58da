/-! The bytes of integers in two's complement, from the lowest one up, and the word that they leave
of an integer of any size. -/

namespace ExprLang

namespace SignedBytes

/-- The bytes that an integer needs; the top bit of the last one is its sign. -/
def ofInt (n : Int) : List UInt8 :=
  if -128 ≤ n ∧ n < 128 then [UInt8.ofInt n] else UInt8.ofInt n :: ofInt (n / 256)
termination_by n.natAbs
decreasing_by omega

/-- The byte that may stand above the bytes of an integer any number of times. -/
def fill (n : Int) : UInt8 := if n < 0 then 0xff else 0

/-- So many low bytes of an integer. -/
def low (count : Nat) (n : Int) : List UInt8 :=
  (ofInt n ++ List.replicate count (fill n)).take count

/-- The number with these bytes, without a sign. -/
def toNat : List UInt8 → Nat
  | [] => 0
  | b :: bs => b.toNat + 256 * toNat bs

end SignedBytes

/-- The low 64 bits of an integer, in two's complement. -/
def lowWord (n : Int) : Int64 :=
  if Int64.minValue.toInt ≤ n ∧ n ≤ Int64.maxValue.toInt then Int64.ofInt n
  else (UInt64.ofNat (SignedBytes.toNat (SignedBytes.low 8 n))).toInt64

end ExprLang
