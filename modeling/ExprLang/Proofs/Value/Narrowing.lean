import ExprLang.Number.SignedBytes
import ExprLang.Proofs.Number.Meant
import ExprLang.Proofs.Value.Arithmetic
import ExprLang.Proofs.Value.Exact
import Mathlib.Data.Int.ModEq
import Mathlib.Tactic.Ring

/-! Integers and decimal numbers as integers of another kind: of a narrow kind are the remainders
modulo a power of two, whatever the size of the integer and whichever way it takes through wider
kinds. -/

namespace ExprLang

/-! ## The low word of an integer -/

namespace SignedBytes

theorem toNat_byte (n : Int) : ((UInt8.ofInt n).toNat : Int) = n % 256 := by
  have hlow : 0 ≤ n % 256 := Int.emod_nonneg n (by decide)
  have hhigh : n % 256 < 256 := Int.emod_lt_of_pos n (by decide)
  simp only [UInt8.ofInt, UInt8.toNat_ofNat']
  omega

/-- The byte above all others stands for the sign. -/
theorem toNat_fill (n : Int) : ((fill n).toNat : Int) = if n < 0 then 255 else 0 := by
  unfold fill
  split <;> rfl

/-- A remainder by one more byte. -/
theorem emod_pow_succ (n : Int) (k : Nat) :
    n % 256 ^ (k + 1) = n % 256 + 256 * (n / 256 % 256 ^ k) := by
  rw [pow_succ', Int.emod_def, Int.emod_def n, Int.emod_def (n / 256),
    Int.ediv_ediv_of_nonneg (by decide)]
  ring

/-- Copies of the sign's byte are the remainder of minus one or of zero. -/
theorem toNat_replicate_fill (n : Int) (k : Nat) :
    (toNat (List.replicate k (fill n)) : Int) = (if n < 0 then -1 else 0) % 256 ^ k := by
  induction k with
  | zero => simp [toNat]
  | succ k ih =>
    rw [List.replicate_succ, toNat, Nat.cast_add, Nat.cast_mul, ih, toNat_fill, emod_pow_succ]
    split <;> simp

theorem fill_div (n : Int) : fill (n / 256) = fill n := by
  have hsign : n / 256 < 0 ↔ n < 0 := ⟨by omega, by omega⟩
  unfold fill
  rw [if_congr hsign rfl rfl]

/-- One byte is enough: above it stand copies of the sign's byte. -/
theorem low_succ_of_small {n : Int} (hn : -128 ≤ n ∧ n < 128) (k : Nat) :
    low (k + 1) n = UInt8.ofInt n :: List.replicate k (fill n) := by
  rw [low, ofInt, if_pos hn, List.singleton_append, List.take_succ_cons, List.take_replicate,
    Nat.min_eq_left (Nat.le_succ k)]

/-- One byte is not enough: above it stand the bytes of the quotient. -/
theorem low_succ_of_large {n : Int} (hn : ¬(-128 ≤ n ∧ n < 128)) (k : Nat) :
    low (k + 1) n = UInt8.ofInt n :: low k (n / 256) := by
  rw [low, ofInt, if_neg hn, List.cons_append, List.take_succ_cons, low, fill_div,
    List.replicate_succ', ← List.append_assoc, List.take_append_of_le_length (by simp)]

/-- The low bytes of an integer hold its remainder. -/
theorem toNat_low (k : Nat) (n : Int) : (toNat (low k n) : Int) = n % 256 ^ k := by
  induction k generalizing n with
  | zero => simp [low, toNat]
  | succ k ih =>
    have hhead (bs : List UInt8) :
        (toNat (UInt8.ofInt n :: bs) : Int) = n % 256 + 256 * toNat bs := by
      rw [toNat, Nat.cast_add, Nat.cast_mul, toNat_byte]
      rfl
    by_cases hn : -128 ≤ n ∧ n < 128
    · have hquotient : n / 256 = if n < 0 then -1 else 0 := by
        split <;> omega
      rw [low_succ_of_small hn, hhead, toNat_replicate_fill, emod_pow_succ, hquotient]
    · rw [low_succ_of_large hn, hhead, ih, emod_pow_succ]

end SignedBytes

/-- The low word is the integer modulo `2 ^ 64`. -/
@[simp] theorem lowWord_eq (n : Int) : lowWord n = Int64.ofInt n := by
  unfold lowWord
  split
  · rfl
  · have hsize : (256 : Int) ^ 8 = (Int64.size : Nat) := by decide
    rw [UInt64.toInt64_ofNat', ← Int64.toInt_inj, Int64.toInt_ofNat', Int64.toInt_ofInt,
      SignedBytes.toNat_low, hsize, Int.emod_bmod]

/-! ## Integers of other kinds -/

/-- The integer that an integral value stands for; a character stands for its code. -/
def Value.integer? : Value → Option Int
  | .byte n => some n.toInt
  | .short n => some n.toInt
  | .int n => some n.toInt
  | .long n => some n.toInt
  | .char c => some c.toNat
  | .bigInt n => some n
  | _ => none

/-- The integers of so many bits, one of them for the sign. -/
def InWidth (w : Nat) (z : Int) : Prop := -2 ^ (w - 1) ≤ z ∧ z < 2 ^ (w - 1)

/-- Exactly one integer of a width leaves the same remainder. -/
theorem eq_bmod_iff {w : Nat} (hw : 0 < w) {n z : Int} :
    z = n.bmod (2 ^ w) ↔ InWidth w z ∧ z ≡ n [ZMOD 2 ^ w] := by
  obtain ⟨w, rfl⟩ := Nat.exists_eq_add_of_lt hw
  have hsize : ((2 ^ (0 + w + 1) : Nat) : Int) = 2 * 2 ^ w := by
    push_cast
    rw [zero_add, pow_succ']
  have hpow : (2 : Int) ^ (0 + w + 1) = 2 * 2 ^ w := by rw [zero_add, pow_succ']
  have hmod : z ≡ n [ZMOD 2 * 2 ^ w] ↔ 2 * 2 ^ w ∣ z - n :=
    ⟨fun h => h.symm.dvd, fun h => (Int.modEq_of_dvd h).symm⟩
  rw [eq_comm, Int.bmod_eq_iff (by positivity), hsize, InWidth, hpow, hmod, ← and_assoc]
  simp only [Nat.add_sub_cancel, zero_add]
  refine and_congr (and_congr ?_ ?_) Iff.rfl <;> omega

/-- The kind of a result that is an integer. -/
def Value.integerKind? : Value → Option NumberKind
  | .byte _ => some .byte
  | .short _ => some .short
  | .int _ => some .int
  | .long _ => some .long
  | .bigInt _ => some .bigInt
  | _ => none

namespace NumberKind
variable {k l : NumberKind} {r s : Value} {z : Int} {w : Nat}

/-- The bits of the narrow kinds of integers. -/
def width? : NumberKind → Option Nat
  | .byte => some 8
  | .short => some 16
  | .int => some 32
  | .long => some 64
  | _ => none

/-- A narrow kind, and one that has at least as many bits or no bound at all. -/
def Within (k l : NumberKind) : Prop :=
  ∃ w, k.width? = some w ∧ (l = .bigInt ∨ ∃ u, l.width? = some u ∧ w ≤ u)

/-- A value of a kind of integers stands for an integer. -/
def Denotes (k : NumberKind) (r : Value) (z : Int) : Prop :=
  r.integerKind? = some k ∧ r.integer? = some z

theorem width_pos (hk : k.width? = some w) : 0 < w := by
  cases k <;> cases hk <;> decide

/-- A kind has one value for each integer. -/
theorem Denotes.unique (hr : k.Denotes r z) (hs : k.Denotes s z) : r = s := by
  obtain ⟨hrk, hrz⟩ := hr
  obtain ⟨hsk, hsz⟩ := hs
  have hinteger := hrz.trans hsz.symm
  cases r <;> cases hrk <;> cases s <;> cases hsk <;>
    simpa [Value.integer?, Int8.toInt_inj, Int16.toInt_inj, Int32.toInt_inj, Int64.toInt_inj]
      using hinteger

end NumberKind

namespace Coercion
variable {h : Heap} {v : Value} {n : Int} {k l : NumberKind} {w : Nat}

/-- An integral value holds a number whose conversions are those of the integer. -/
structure Converts (h : Heap) (v : Value) (n : Int) (m : Numeral) : Prop where
  target {α : Type} (t : Target α) {a : α} : t.ofNumeral? m = some a → toTarget h t v = .ok a
  word : m.toWord = Int64.ofInt n
  big : m.toBig? = some n
  decimal : m.toDecimal? = some (.ofInt n)

theorem converts_word {m : Int64} (hv : v.numeral? = some (.word m)) (hm : m.toInt = n) :
    Converts h v n (.word m) := by
  subst hm
  refine ⟨fun t _ ht => ?_, (Int64.ofInt_toInt m).symm, rfl, rfl⟩
  cases v with
  | byte | short | int | long | char => simp only [toTarget, hv, Option.bind_some, ht]
  | _ => cases hv

theorem exists_converts (h : Heap) (hv : v.integer? = some n) : ∃ m, Converts h v n m := by
  cases v with
  | byte m => exact ⟨_, converts_word rfl ((Int8.toInt_toInt64 m).trans (Option.some.inj hv))⟩
  | short m => exact ⟨_, converts_word rfl ((Int16.toInt_toInt64 m).trans (Option.some.inj hv))⟩
  | int m => exact ⟨_, converts_word rfl ((Int32.toInt_toInt64 m).trans (Option.some.inj hv))⟩
  | long m => exact ⟨_, converts_word rfl (Option.some.inj hv)⟩
  | char c =>
    have hcode : (Int64.ofNat c.toNat).toInt = n := by
      rw [Int64.toInt_ofNat', bmod_code]
      exact Option.some.inj hv
    exact ⟨_, converts_word rfl hcode⟩
  | bigInt m =>
    cases hv
    refine ⟨.big _, fun t _ ht => ?_, lowWord_eq _, rfl, rfl⟩
    simp only [toTarget, Value.numeral?, Option.bind_some, ht]
  | _ => cases hv

/-- A narrow kind keeps the remainder of an integral value. -/
theorem toNumber_denotes (h : Heap) (hv : v.integer? = some n) (hk : k.width? = some w) :
    ∃ r, toNumber h k v = .ok r ∧ k.Denotes r (n.bmod (2 ^ w)) := by
  obtain ⟨m, hm⟩ := exists_converts h hv
  cases k with
  | byte =>
    cases hk
    refine ⟨.byte (Int8.ofInt n), ?_, rfl, congrArg some Int8.toInt_ofInt⟩
    rw [toNumber, hm.target byte rfl, hm.word, Int64.toInt8_ofInt]
    rfl
  | short =>
    cases hk
    refine ⟨.short (Int16.ofInt n), ?_, rfl, congrArg some Int16.toInt_ofInt⟩
    rw [toNumber, hm.target short rfl, hm.word, Int64.toInt16_ofInt]
    rfl
  | int =>
    cases hk
    refine ⟨.int (Int32.ofInt n), ?_, rfl, congrArg some Int32.toInt_ofInt⟩
    rw [toNumber, hm.target int rfl, hm.word, Int64.toInt32_ofInt]
    rfl
  | long =>
    cases hk
    refine ⟨.long (Int64.ofInt n), ?_, rfl, congrArg some Int64.toInt_ofInt⟩
    rw [toNumber, hm.target long rfl, hm.word]
    rfl
  | bigInt | float | double | decimal => cases hk

theorem toNumber_big (h : Heap) (hv : v.integer? = some n) :
    toNumber h .bigInt v = .ok (.bigInt n) := by
  obtain ⟨m, hm⟩ := exists_converts h hv
  rw [toNumber, hm.target big hm.big]
  rfl

theorem toNumber_decimal (h : Heap) (hv : v.integer? = some n) :
    toNumber h .decimal v = .ok (.decimal (.ofInt n)) := by
  obtain ⟨m, hm⟩ := exists_converts h hv
  rw [toNumber, hm.target decimal hm.decimal]
  rfl

/-- A narrow kind has the same value for an integer and for its remainder in a wider kind. -/
theorem toNumber_through (h : Heap) (hv : v.integer? = some n) (hkl : k.Within l) :
    ∃ u, toNumber h l v = .ok u ∧ toNumber h k u = toNumber h k v := by
  obtain ⟨w, hw, rfl | ⟨x, hx, hwx⟩⟩ := hkl
  · obtain ⟨r, hr, hrn⟩ := toNumber_denotes h hv hw
    obtain ⟨s, hs, hsn⟩ := toNumber_denotes (v := .bigInt n) h rfl hw
    exact ⟨_, toNumber_big h hv, by rw [hr, hs, hrn.unique hsn]⟩
  · obtain ⟨u, hu, -, hinteger⟩ := toNumber_denotes h hv hx
    obtain ⟨r, hr, hrn⟩ := toNumber_denotes h hv hw
    obtain ⟨s, hs, hsn⟩ := toNumber_denotes h hinteger hw
    rw [Int.bmod_bmod_of_dvd (pow_dvd_pow 2 hwx)] at hsn
    exact ⟨u, hu, by rw [hr, hs, hrn.unique hsn]⟩

/-- Integers and characters become integers of every kind. Of a narrow kind it is the only one that
leaves the same remainder modulo the number of its values; as an integer of any size and as a decimal
number it is the same integer. Passing through a wider kind first makes no difference. -/
theorem integers_narrow_by_remainder (h : Heap) {v : Value} {n : Int} (hv : v.integer? = some n) :
    (∀ k w, k.width? = some w → ∃ r z, toNumber h k v = .ok r ∧ k.Denotes r z ∧
      ∀ y, y = z ↔ InWidth w y ∧ y ≡ n [ZMOD 2 ^ w]) ∧
    toNumber h .bigInt v = .ok (.bigInt n) ∧ toNumber h .decimal v = .ok (.decimal ⟨n, 0⟩) ∧
    ∀ k l, k.Within l → ∃ u, toNumber h l v = .ok u ∧ toNumber h k u = toNumber h k v := by
  refine ⟨fun k w hk => ?_, toNumber_big h hv, toNumber_decimal h hv,
    fun k l hkl => toNumber_through h hv hkl⟩
  obtain ⟨r, hr, hrn⟩ := toNumber_denotes h hv hk
  exact ⟨r, _, hr, hrn, fun y => eq_bmod_iff (NumberKind.width_pos hk)⟩

/-- A negative integer of more than 64 bits becomes a byte, also by way of 32 bits. -/
theorem negative_integer_narrowed :
    let h : Heap := ⟨⟨#[]⟩, #[]⟩
    let v : Value := .bigInt (-2 ^ 64 - 200)
    v.integer? = some (-2 ^ 64 - 200) ∧ toNumber h .byte v = .ok (.byte 56) ∧
      ∃ u, toNumber h .int v = .ok u ∧ toNumber h .byte u = .ok (.byte 56) := by
  intro h v
  obtain ⟨hnarrow, -, -, hthrough⟩ := integers_narrow_by_remainder h (v := v) rfl
  obtain ⟨r, z, hr, hrz, hunique⟩ := hnarrow .byte 8 rfl
  obtain rfl : 56 = z := (hunique 56).mpr ⟨by unfold InWidth; decide, by decide⟩
  obtain rfl : r = .byte 56 := hrz.unique ⟨rfl, rfl⟩
  obtain ⟨u, hu, hbyte⟩ := hthrough .byte .int ⟨8, rfl, .inr ⟨32, rfl, by decide⟩⟩
  exact ⟨rfl, hr, u, hu, hbyte.trans hr⟩

end Coercion

/-! ## Decimal numbers

All conversions of a decimal number come from one integer, of which the narrow ones keep the low
bits. It is the number truncated toward zero unless the scale is too wide. -/

namespace Coercion
variable {h : Heap} {v : Value} {z w : Int}

/-- The conversions of a value to integers come from this integer: the unbounded one is the integer
itself, the others are its remainders in their signed ranges. -/
structure ConvertsFrom (h : Heap) (v : Value) (z : Int) : Prop where
  big : toNumber h .bigInt v = .ok (.bigInt z)
  long : ∃ n : Int64, toNumber h .long v = .ok (.long n) ∧ n.toInt = z.bmod (2 ^ 64)
  int : ∃ n : Int32, toNumber h .int v = .ok (.int n) ∧ n.toInt = z.bmod (2 ^ 32)
  short : ∃ n : Int16, toNumber h .short v = .ok (.short n) ∧ n.toInt = z.bmod (2 ^ 16)
  byte : ∃ n : Int8, toNumber h .byte v = .ok (.byte n) ∧ n.toInt = z.bmod (2 ^ 8)

theorem ConvertsFrom.unique (hz : ConvertsFrom h v z) (hw : ConvertsFrom h v w) : z = w := by
  have heq := hz.big.symm.trans hw.big
  cases heq
  rfl

/-- A narrow integer is cut out of the 64 bit one, which has all the bits it needs. -/
theorem convertsFrom_truncate (h : Heap) (d : Decimal) :
    ConvertsFrom h (.decimal d) d.truncate where
  big := rfl
  long := ⟨_, rfl, by rw [Numeral.toWord, lowWord_eq]; exact Int64.toInt_ofInt⟩
  int := ⟨_, rfl, by rw [Numeral.toWord, lowWord_eq, Int64.toInt32_ofInt]; exact Int32.toInt_ofInt⟩
  short := ⟨_, rfl, by rw [Numeral.toWord, lowWord_eq, Int64.toInt16_ofInt]; exact Int16.toInt_ofInt⟩
  byte := ⟨_, rfl, by rw [Numeral.toWord, lowWord_eq, Int64.toInt8_ofInt]; exact Int8.toInt_ofInt⟩

/-- Every decimal number becomes an integer of each kind. They come from the number truncated
toward zero exactly where the scale fits 32 bits, the number is zero, or the low 32 bits of a
positive scale leave nothing of it. -/
theorem decimal_truncation_exact_iff (h : Heap) (d : Decimal) :
    (∃ z, ConvertsFrom h (.decimal d) z) ∧
      (ConvertsFrom h (.decimal d) (towardZero d.meant) ↔
        |d.scale| < 2 ^ 32 ∨ d.digits = 0 ∨
          0 < d.scale ∧ d.digits.natAbs < 10 ^ (d.scale % 2 ^ 32).toNat) := by
  have hz := convertsFrom_truncate h d
  refine ⟨⟨_, hz⟩, ?_⟩
  rw [← d.truncate_eq_iff]
  constructor
  · intro hexact
    exact hz.unique hexact
  · intro heq
    exact heq ▸ hz

/-- Five units of a place far below the point are nothing, but they become the integer five. -/
theorem wide_scale_truncated_to_digits :
    towardZero (Decimal.meant ⟨5, 2 ^ 32⟩) = 0 ∧
      toNumber ⟨⟨#[]⟩, #[]⟩ .bigInt (.decimal ⟨5, 2 ^ 32⟩) = .ok (.bigInt 5) ∧
      toNumber ⟨⟨#[]⟩, #[]⟩ .long (.decimal ⟨5, 2 ^ 32⟩) = .ok (.long 5) ∧
      ¬∀ (h : Heap) (d : Decimal), ConvertsFrom h (.decimal d) (towardZero d.meant) := by
  have hzero : towardZero (Decimal.meant ⟨5, 2 ^ 32⟩) = 0 :=
    Decimal.towardZero_meant_of_small (by decide) <|
      (show 5 < 10 ^ 1 by decide).trans_le (Nat.pow_le_pow_right (by decide) (by decide))
  have hfive : toNumber ⟨⟨#[]⟩, #[]⟩ .bigInt (.decimal ⟨5, 2 ^ 32⟩) = .ok (.bigInt 5) := rfl
  refine ⟨hzero, hfive, rfl, fun hall => ?_⟩
  have hbig := (hall ⟨⟨#[]⟩, #[]⟩ ⟨5, 2 ^ 32⟩).big
  rw [hzero, hfive] at hbig
  cases hbig

end Coercion

end ExprLang

/-! ## Remainders

Remainders of integers, where null counts as zero: with an integer of any size they are not
negative, between 64 bit integers they go with a quotient truncated toward zero. -/

namespace ExprLang

/-- The integer that an operand stands for: null counts as zero. -/
def Value.whole? : Value → Option Int
  | .null => some 0
  | v => v.integer?

/-- The quotient of integers toward zero, whatever their signs. -/
theorem towardZero_intDiv (m n : Int) : towardZero (m / n) = m.tdiv n := by
  obtain ⟨k, rfl | rfl⟩ := n.eq_nat_or_neg
  · exact towardZero_div m k
  · have hneg : (m : ℚ) / ((-k : Int) : ℚ) = ((-m : Int) : ℚ) / (k : ℚ) := by
      push_cast
      rw [div_neg, neg_div]
    rw [hneg, towardZero_div, Int.neg_tdiv, Int.tdiv_neg]

/-- A truncated remainder that is negative is brought up by the divisor. -/
theorem tmod_corrected (m : Int) {n : Int} (hn : 0 < n) :
    (if m.tmod n < 0 then m.tmod n + n else m.tmod n) = m % n := by
  have hlow := Int.lt_tmod_of_pos m hn
  have hhigh := Int.tmod_lt_of_pos m hn
  have hmod : m.tmod n % n = m % n := by rw [Int.tmod_def, Int.sub_mul_emod_self_left]
  split
  · rw [← hmod, ← Int.add_emod_right, Int.emod_eq_of_lt (by omega) (by omega)]
  · rw [← hmod, Int.emod_eq_of_lt (by omega) hhigh]

namespace Arithmetic
open Comparison (isDecimal isBig)
variable {h : Heap} {a b v : Value} {m n : Int}

theorem amount?_of_whole? (hv : v.whole? = some n) : v.amount? = some (n : ℚ) := by
  cases v with
  | null | byte | short | int | long | bigInt =>
    cases hv
    rfl
  | char =>
    cases hv
    exact congrArg some (Int.cast_natCast _).symm
  | _ => cases hv

theorem isDecimal_of_whole? (hv : v.whole? = some n) : isDecimal v = false := by
  cases v <;> first | rfl | cases hv

theorem family_of_whole? (hv : v.whole? = some n) :
    family v = if isBig v then .big else .word := by
  cases v <;> first | rfl | cases hv

/-- Two integers meet in 64 bits unless one of them may have more. -/
theorem common_of_whole? (ha : a.whole? = some m) (hb : b.whole? = some n) :
    common a b = if isBig a || isBig b then .big else .word := by
  rw [common, family_of_whole? ha, family_of_whole? hb]
  cases isBig a <;> cases isBig b <;> rfl

/-- With an integer of any size both operands are such integers. -/
theorem rem_of_big (ha : a.whole? = some m) (hb : b.whole? = some n)
    (hbig : (isBig a || isBig b) = true) :
    rem h a b = if n ≤ 0 then .error .modulusNotPositive else .ok (.bigInt (m % n)) := by
  have hnull : ¬(a.isNull && b.isNull) = true := by
    cases a <;> cases b <;> first | exact Bool.false_ne_true | cases hbig
  have ha' := amount?_of_whole? ha
  have hb' := amount?_of_whole? hb
  obtain ⟨x, hx, hxm⟩ := Coercion.toTarget_big_exact (h := h) ha' (isDecimal_of_whole? ha)
  obtain ⟨y, hy, hyn⟩ := Coercion.toTarget_big_exact (h := h) hb' (isDecimal_of_whole? hb)
  obtain rfl := Int.cast_inj.mp hxm
  obtain rfl := Int.cast_inj.mp hyn
  rw [rem, guarded_eq (isOperand_of_amount? ha') (isOperand_of_amount? hb') hnull,
    common_of_whole? ha hb, if_pos hbig]
  simp only [both_eq hx hy, bind, Except.bind]
  split
  · rfl
  · next hy0 => rw [tmod_corrected x (not_le.mp hy0)]; rfl

/-- All other operands are integers of 64 bits. -/
theorem rem_of_words (ha : a.whole? = some m) (hb : b.whole? = some n)
    (hbig : (isBig a || isBig b) = false) (hnull : ¬(a.isNull && b.isNull) = true) :
    (n = 0 → rem h a b = .error .remainderByZero) ∧
    (n ≠ 0 → ∃ r : Int64, rem h a b = .ok (.long r) ∧ r.toInt = m.tmod n) := by
  have ha' := amount?_of_whole? ha
  have hb' := amount?_of_whole? hb
  obtain ⟨hbiga, hbigb⟩ := Bool.or_eq_false_iff.mp hbig
  obtain ⟨x, hx, hxm⟩ := Coercion.toTarget_long_exact (h := h) ha' (isDecimal_of_whole? ha) hbiga
  obtain ⟨y, hy, hyn⟩ := Coercion.toTarget_long_exact (h := h) hb' (isDecimal_of_whole? hb) hbigb
  obtain rfl := Int.cast_inj.mp hxm
  obtain rfl := Int.cast_inj.mp hyn
  have hzero : y.toInt = 0 ↔ y = 0 := by rw [← Int64.toInt_inj]; rfl
  have hrem : rem h a b = if y = 0 then .error .remainderByZero else .ok (.long (x % y)) := by
    rw [rem, guarded_eq (isOperand_of_amount? ha') (isOperand_of_amount? hb') hnull,
      common_of_whole? ha hb, hbig]
    simp only [both_eq hx hy, bind, Except.bind]
    rfl
  constructor
  · intro hy0
    rw [hrem, if_pos (hzero.mp hy0)]
  · intro hy0
    rw [hrem, if_neg (mt hzero.mpr hy0)]
    exact ⟨x % y, rfl, Int64.toInt_mod x y⟩

/-- The remainder of integers of any kinds, characters and nulls always has an answer. With an
integer of any size it is the one from zero up to the divisor, which has to be positive. Otherwise
two nulls leave zero, and a divisor other than zero leaves what the quotient truncated toward zero
does. -/
theorem integral_remainders (h : Heap) {a b : Value} {m n : Int} (ha : a.whole? = some m)
    (hb : b.whole? = some n) :
    ((isBig a || isBig b) = true →
      (n ≤ 0 → rem h a b = .error .modulusNotPositive) ∧
      (0 < n → ∃ r, rem h a b = .ok (.bigInt r) ∧ 0 ≤ r ∧ r < n ∧ r ≡ m [ZMOD n])) ∧
    ((isBig a || isBig b) = false →
      (a = .null → b = .null → rem h a b = .ok (.long 0)) ∧
      (¬(a = .null ∧ b = .null) → n = 0 → rem h a b = .error .remainderByZero) ∧
      (n ≠ 0 → ∃ r : Int64, rem h a b = .ok (.long r) ∧
        m = towardZero (m / n) * n + r.toInt)) := by
  have eq_null {v : Value} (hv : v.isNull = true) : v = .null := by
    cases v <;> first | rfl | cases hv
  constructor
  · intro hbig
    rw [rem_of_big ha hb hbig]
    refine ⟨fun hn => if_pos hn, fun hn => ⟨m % n, if_neg (not_le.mpr hn), ?_⟩⟩
    exact ⟨Int.emod_nonneg m hn.ne', Int.emod_lt_of_pos m hn, Int.mod_modEq m n⟩
  · intro hbig
    refine ⟨?_, fun hnull => ?_, fun hn => ?_⟩
    · rintro rfl rfl
      rfl
    · refine (rem_of_words ha hb hbig fun hboth => hnull ?_).1
      rw [Bool.and_eq_true] at hboth
      exact ⟨eq_null hboth.1, eq_null hboth.2⟩
    · have hdivisor : ¬(a.isNull && b.isNull) = true := by
        intro hboth
        rw [Bool.and_eq_true] at hboth
        obtain rfl := eq_null hboth.2
        exact hn (Option.some.inj hb).symm
      obtain ⟨r, hr, hmod⟩ := (rem_of_words (h := h) ha hb hbig hdivisor).2 hn
      refine ⟨r, hr, ?_⟩
      rw [towardZero_intDiv, hmod, mul_comm, Int.mul_tdiv_add_tmod]

/-- The least integer of 64 bits by minus one, a negative integer of any size, and nulls. -/
theorem least_integer_remainder :
    let h : Heap := ⟨⟨#[]⟩, #[]⟩
    rem h (.long Int64.minValue) (.long (-1)) = .ok (.long 0) ∧
      rem h (.bigInt (-7)) (.byte 3) = .ok (.bigInt 2) ∧
      rem h .null (.bigInt 0) = .error .modulusNotPositive ∧
      rem h .null .null = .ok (.long 0) ∧ rem h (.char 'A') .null = .error .remainderByZero := by
  intro h
  obtain ⟨-, hwords⟩ := integral_remainders h (a := .long Int64.minValue) (b := .long (-1)) rfl rfl
  obtain ⟨-, -, hleast⟩ := hwords rfl
  obtain ⟨r, hr, hquotient⟩ := hleast (by decide)
  obtain rfl : r = 0 := by
    rw [towardZero_intDiv] at hquotient
    exact Int64.toInt_inj.mp (by simpa using hquotient)
  obtain ⟨hbig, -⟩ := integral_remainders h (a := .bigInt (-7)) (b := .byte 3) rfl rfl
  obtain ⟨r, hseven, hlow, hhigh, hmod⟩ := (hbig rfl).2 (by decide)
  obtain rfl : r = 2 := by
    have hthree : r < 3 := hhigh
    have hrest : r % 3 = -7 % 3 := hmod
    omega
  exact ⟨hr, hseven, ((integral_remainders h (a := .null) (b := .bigInt 0) rfl rfl).1 rfl).1 le_rfl,
    ((integral_remainders h (a := .null) (b := .null) rfl rfl).2 rfl).1 rfl rfl,
    ((integral_remainders h (a := .char 'A') (b := .null) rfl rfl).2 rfl).2.1 nofun rfl⟩

end Arithmetic

end ExprLang
