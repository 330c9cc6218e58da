import ExprLang.Number.Decimal
import ExprLang.Proofs.Number.Digits
import ExprLang.Proofs.Number.Rounding
import Mathlib.Data.Rat.Floor
import Mathlib.Order.Compare
import Mathlib.Tactic.Ring

/-! Numbers are equal where they mean the same, so equality is symmetric and transitive. Decimal
numbers act as the numbers that they stand for: sums, differences and products are exact, and the
order asks for nothing else, whatever the scales. -/

namespace ExprLang

/-! ## Binary numbers -/

namespace Binary

variable {f : FloatFormat}

/-- The number that a significand with its sign stands for. -/
def meant (negative : Bool) (m : Nat) (e : Int) : ℚ := (if negative then -(m : ℚ) else m) * 2 ^ e

/-- An infinity with its sign, or a number; a NaN means nothing. -/
def meaning? : Binary f → Option (Bool ⊕ ℚ)
  | nan => none
  | infinite s => some (.inl s)
  | finite s m e => some (.inr (meant s m e))

theorem aligned_eq {s : Bool} {m : Nat} {e least : Int} (h : least ≤ e) :
    (aligned s m e least : ℚ) = meant s m e / 2 ^ least := by
  have hpow : (2 : ℚ) ^ (e - least).toNat = 2 ^ e / 2 ^ least := by
    rw [← zpow_natCast, Int.toNat_of_nonneg (by omega), zpow_sub₀ (by norm_num)]
  unfold aligned meant
  cases s <;> simp [cast_twoPow, hpow] <;> ring

theorem equal_finite_iff {s t : Bool} {m n : Nat} {d e : Int} :
    (finite s m d : Binary f).equal (finite t n e) = true ↔ meant s m d = meant t n e := by
  have hiff : (finite s m d : Binary f).equal (finite t n e) = true ↔
      aligned s m d (min d e) = aligned t n e (min d e) := by
    simp [equal, compare?]
  have hpow : (2 : ℚ) ^ min d e ≠ 0 := by positivity
  rw [hiff, ← Int.cast_inj (α := ℚ), aligned_eq (min_le_left d e), aligned_eq (min_le_right d e),
    div_left_inj' hpow]

theorem equal_iff {x y : Binary f} :
    x.equal y = true ↔ ∃ v, x.meaning? = some v ∧ y.meaning? = some v := by
  cases x <;> cases y
  case finite.finite s m d t n e =>
    rw [equal_finite_iff]
    constructor
    · exact fun h => ⟨_, rfl, congrArg (fun v => some (Sum.inr v)) h.symm⟩
    · rintro ⟨v, hx, hy⟩
      exact Sum.inr.inj (Option.some.inj (hx.trans hy.symm))
  case infinite.infinite s t => cases s <;> cases t <;> simp [equal, compare?, meaning?]
  case infinite.finite s _ _ _ => cases s <;> simp [equal, compare?, meaning?]
  case finite.infinite t => cases t <;> simp [equal, compare?, meaning?]
  all_goals simp [equal, compare?, meaning?]

theorem equal_self {x : Binary f} (hx : x.isNaN = false) : x.equal x = true := by
  cases x with
  | nan => cases hx
  | infinite | finite => exact equal_iff.mpr ⟨_, rfl, rfl⟩

theorem equal_symm {x y : Binary f} (h : x.equal y = true) : y.equal x = true := by
  obtain ⟨v, hx, hy⟩ := equal_iff.mp h
  exact equal_iff.mpr ⟨v, hy, hx⟩

theorem equal_trans {x y z : Binary f} (hxy : x.equal y = true) (hyz : y.equal z = true) :
    x.equal z = true := by
  obtain ⟨v, hx, hy⟩ := equal_iff.mp hxy
  obtain ⟨w, hy', hz⟩ := equal_iff.mp hyz
  obtain rfl := Option.some.inj (hy.symm.trans hy')
  exact equal_iff.mpr ⟨v, hx, hz⟩

end Binary

/-! ## Decimal numbers -/

namespace Decimal

/-- The number that digits at a scale stand for. -/
def meant (d : Decimal) : ℚ := d.digits * 10 ^ (-d.scale)

/-- What decides equality: the sign, the magnitude and the number, but nothing of a zero. -/
def meaning? (d : Decimal) : Option (Int × Int × ℚ) :=
  if d.digits = 0 then none else some (d.digits.sign, d.magnitude, d.meant)

theorem digitsAt_eq {d : Decimal} {scale : Int} (h : d.scale ≤ scale) :
    (d.digitsAt scale : ℚ) = d.meant * 10 ^ scale := by
  have hpow : (10 : ℚ) ^ (scale - d.scale).toNat = 10 ^ (-d.scale) * 10 ^ scale := by
    rw [← zpow_natCast, Int.toNat_of_nonneg (by omega), ← zpow_add₀ (by norm_num), add_comm,
      ← sub_eq_add_neg]
  unfold digitsAt meant
  rw [Int.cast_mul, Int.cast_natCast, cast_tenPow, hpow, mul_assoc]

theorem digitsAt_eq_iff {a b : Decimal} :
    a.digitsAt (max a.scale b.scale) = b.digitsAt (max a.scale b.scale) ↔ a.meant = b.meant := by
  have hpow : (10 : ℚ) ^ max a.scale b.scale ≠ 0 := by positivity
  rw [← Int.cast_inj (α := ℚ), digitsAt_eq (le_max_left _ _), digitsAt_eq (le_max_right _ _),
    mul_left_inj' hpow]

theorem equal_iff_sign {a b : Decimal} :
    a.equal b = true ↔ a.digits.sign = b.digits.sign ∧
      (a.digits = 0 ∨ a.magnitude = b.magnitude ∧ a.meant = b.meant) := by
  unfold equal compare
  by_cases hs : a.digits.sign = b.digits.sign
  · by_cases ha : a.digits = 0
    · simp [isZero, ha]
    · by_cases hm : a.magnitude = b.magnitude
      · simp [isZero, hs, ha, hm, digitsAt_eq_iff]
      · have hsizes : Ord.compare a.magnitude b.magnitude ≠ .eq := by rwa [Ne, compare_eq_iff_eq]
        by_cases hneg : a.digits < 0 <;> simp [isZero, hs, ha, hm, hneg]
  · have hsigns : Ord.compare a.digits.sign b.digits.sign ≠ .eq := by rwa [Ne, compare_eq_iff_eq]
    simp [hs, hsigns]

theorem equal_iff {a b : Decimal} : a.equal b = true ↔ a.meaning? = b.meaning? := by
  rw [equal_iff_sign]
  unfold meaning?
  by_cases ha : a.digits = 0 <;> by_cases hb : b.digits = 0 <;> simp [ha, hb, eq_comm]

theorem equal_self (d : Decimal) : d.equal d = true := equal_iff.mpr rfl

theorem equal_symm {a b : Decimal} (h : a.equal b = true) : b.equal a = true :=
  equal_iff.mpr (equal_iff.mp h).symm

theorem equal_trans {a b c : Decimal} (hab : a.equal b = true) (hbc : b.equal c = true) :
    a.equal c = true :=
  equal_iff.mpr ((equal_iff.mp hab).trans (equal_iff.mp hbc))

end Decimal

/-! ## Exact operations -/

namespace Decimal
variable {a b d : Decimal}

theorem meant_ofInt (n : Int) : (ofInt n).meant = n := by simp [ofInt, meant]

theorem meant_neg (d : Decimal) : d.neg.meant = -d.meant := by simp [neg, meant]

theorem tenTo_eq_pow (scale : Int) : tenTo scale = (10 ^ (scale % 2 ^ 32).toNat : Nat) := rfl

/-- A power of ten whose exponent fits 32 bits. -/
theorem tenTo_eq {scale : Int} (hlow : 0 ≤ scale) (hhigh : scale < 2 ^ 32) :
    tenTo scale = 10 ^ scale.toNat := by
  rw [tenTo_eq_pow, Int.emod_eq_of_lt hlow hhigh, Nat.cast_pow, Nat.cast_ofNat]

/-! ## Signs -/

theorem meant_pos_iff : 0 < d.meant ↔ 0 < d.digits := by
  have hpow : (0 : ℚ) < 10 ^ (-d.scale) := by positivity
  rw [meant, mul_pos_iff_of_pos_right hpow, Int.cast_pos]

theorem meant_neg_iff : d.meant < 0 ↔ d.digits < 0 := by
  rw [← neg_pos, ← meant_neg, meant_pos_iff]
  exact neg_pos

theorem meant_eq_zero_iff : d.meant = 0 ↔ d.digits = 0 := by
  have hpow : (10 : ℚ) ^ (-d.scale) ≠ 0 := by positivity
  rw [meant, mul_eq_zero, or_iff_left hpow, Int.cast_eq_zero]

theorem isZero_iff : d.isZero = true ↔ d.meant = 0 := by
  rw [meant_eq_zero_iff, isZero, beq_iff_eq]

/-! ## Order -/

/-- The magnitude is the exponent of the first power of ten above the number. -/
theorem magnitude_bounds (hd : d.digits ≠ 0) :
    (10 : ℚ) ^ (d.magnitude - 1) ≤ |d.meant| ∧ |d.meant| < 10 ^ d.magnitude := by
  have hten : (10 : ℚ) ≠ 0 := by norm_num
  have hpow : (0 : ℚ) < 10 ^ (-d.scale) := by positivity
  obtain ⟨hlow, hhigh⟩ := toDigits_bounds (Int.natAbs_pos.mpr hd)
  have hsize : 0 < (Nat.toDigits 10 d.digits.natAbs).length := Nat.length_toDigits_pos
  have habs : |d.meant| = (d.digits.natAbs : ℚ) * 10 ^ (-d.scale) := by
    rw [meant, abs_mul, abs_of_pos hpow, Nat.cast_natAbs, Int.cast_abs]
  unfold magnitude
  rw [habs]
  generalize (Nat.toDigits 10 d.digits.natAbs).length = k at hlow hhigh hsize
  constructor
  · rw [show (k : Int) - d.scale - 1 = (k - 1 : Nat) + -d.scale by omega, zpow_add₀ hten,
      zpow_natCast]
    gcongr
    exact_mod_cast hlow
  · rw [show (k : Int) - d.scale = k + -d.scale by omega, zpow_add₀ hten, zpow_natCast]
    gcongr
    exact_mod_cast hhigh

theorem abs_meant_lt (ha : a.digits ≠ 0) (hb : b.digits ≠ 0) (h : a.magnitude < b.magnitude) :
    |a.meant| < |b.meant| :=
  calc |a.meant| < 10 ^ a.magnitude := (magnitude_bounds ha).2
    _ ≤ 10 ^ (b.magnitude - 1) := zpow_le_zpow_right₀ (by norm_num) (by omega)
    _ ≤ |b.meant| := (magnitude_bounds hb).1

/-- Numbers of different magnitudes are as far from zero as these tell. -/
theorem cmp_abs_meant (ha : a.digits ≠ 0) (hb : b.digits ≠ 0) (h : a.magnitude ≠ b.magnitude) :
    cmp |a.meant| |b.meant| = Ord.compare a.magnitude b.magnitude := by
  rcases lt_or_gt_of_ne h with hlt | hgt
  · rw [compare_lt_iff_lt.mpr hlt, cmp_eq_lt_iff]
    exact abs_meant_lt ha hb hlt
  · rw [compare_gt_iff_gt.mpr hgt, cmp_eq_gt_iff]
    exact abs_meant_lt hb ha hgt

theorem cmp_meant_of_neg (ha : a.digits < 0) (hb : b.digits < 0) :
    cmp a.meant b.meant = (cmp |a.meant| |b.meant|).swap := by
  have hanti : StrictAnti fun q : ℚ => -q := fun _ _ h => neg_lt_neg h
  rw [abs_of_neg (meant_neg_iff.mpr ha), abs_of_neg (meant_neg_iff.mpr hb), cmp_swap]
  exact (hanti.cmp_map_eq _ _).symm

theorem cmp_meant_of_pos (ha : 0 < a.digits) (hb : 0 < b.digits) :
    cmp a.meant b.meant = cmp |a.meant| |b.meant| := by
  rw [abs_of_pos (meant_pos_iff.mpr ha), abs_of_pos (meant_pos_iff.mpr hb)]

theorem meant_lt_of_sign (h : a.digits.sign < b.digits.sign) : a.meant < b.meant := by
  rcases lt_trichotomy a.digits 0 with ha | ha | ha
  · rw [Int.sign_eq_neg_one_of_neg ha] at h
    have hb : ¬b.digits < 0 := fun hb => by
      rw [Int.sign_eq_neg_one_of_neg hb] at h
      exact absurd h (lt_irrefl _)
    exact (meant_neg_iff.mpr ha).trans_le (not_lt.mp (meant_neg_iff.not.mpr hb))
  · rw [ha, Int.sign_zero, Int.sign_pos_iff] at h
    rw [meant_eq_zero_iff.mpr ha]
    exact meant_pos_iff.mpr h
  · rw [Int.sign_eq_one_of_pos ha] at h
    rcases Int.sign_trichotomy b.digits with hb | hb | hb <;> omega

theorem cmp_meant_of_sign (h : a.digits.sign ≠ b.digits.sign) :
    cmp a.meant b.meant = Ord.compare a.digits.sign b.digits.sign := by
  rcases lt_or_gt_of_ne h with hlt | hgt
  · rw [compare_lt_iff_lt.mpr hlt, cmp_eq_lt_iff]
    exact meant_lt_of_sign hlt
  · rw [compare_gt_iff_gt.mpr hgt, cmp_eq_gt_iff]
    exact meant_lt_of_sign hgt

/-- Digits at one scale are ordered as the numbers. -/
theorem compare_digitsAt (a b : Decimal) :
    Ord.compare (a.digitsAt (max a.scale b.scale)) (b.digitsAt (max a.scale b.scale)) =
      cmp a.meant b.meant := by
  have hpow : (0 : ℚ) < 10 ^ max a.scale b.scale := by positivity
  rw [← cmp_eq_compare, ← (Int.cast_strictMono (R := ℚ)).cmp_map_eq, digitsAt_eq (le_max_left _ _),
    digitsAt_eq (le_max_right _ _), cmp_mul_pos_right hpow]

theorem compare_of_sign (h : a.digits.sign ≠ b.digits.sign) :
    a.compare b = Ord.compare a.digits.sign b.digits.sign := by
  have hsigns : Ord.compare a.digits.sign b.digits.sign ≠ .eq := by rwa [Ne, compare_eq_iff_eq]
  simp [compare, hsigns]

theorem compare_of_zero (ha : a.digits = 0) (hb : b.digits = 0) : a.compare b = .eq := by
  simp [compare, isZero, ha, hb]

/-- Numbers of one sign are ordered by magnitude, or by the digits at one scale. -/
theorem compare_of_same_sign (hsign : a.digits.sign = b.digits.sign) (ha : a.digits ≠ 0) :
    a.compare b =
      if a.magnitude = b.magnitude then
        Ord.compare (a.digitsAt (max a.scale b.scale)) (b.digitsAt (max a.scale b.scale))
      else if a.digits < 0 then (Ord.compare a.magnitude b.magnitude).swap
      else Ord.compare a.magnitude b.magnitude := by
  simp [compare, isZero, hsign, ha]

/-- The order of decimal numbers is that of the numbers that they stand for. -/
theorem compare_eq_cmp (a b : Decimal) : a.compare b = cmp a.meant b.meant := by
  by_cases hsign : a.digits.sign = b.digits.sign
  · rcases lt_trichotomy a.digits 0 with ha | ha | ha
    · have hb : b.digits < 0 := by
        rwa [← Int.sign_eq_neg_one_iff_neg, ← hsign, Int.sign_eq_neg_one_iff_neg]
      rw [compare_of_same_sign hsign ha.ne, if_pos ha]
      by_cases hm : a.magnitude = b.magnitude
      · rw [if_pos hm, compare_digitsAt]
      · rw [if_neg hm, cmp_meant_of_neg ha hb, cmp_abs_meant ha.ne hb.ne hm]
    · have hb : b.digits = 0 := by
        rw [← Int.sign_eq_zero_iff_zero, ← hsign, ha, Int.sign_zero]
      rw [compare_of_zero ha hb, meant_eq_zero_iff.mpr ha, meant_eq_zero_iff.mpr hb, cmp_self_eq_eq]
    · have hb : 0 < b.digits := by
        rwa [← Int.sign_eq_one_iff_pos, ← hsign, Int.sign_eq_one_iff_pos]
      rw [compare_of_same_sign hsign ha.ne', if_neg (not_lt.mpr ha.le)]
      by_cases hm : a.magnitude = b.magnitude
      · rw [if_pos hm, compare_digitsAt]
      · rw [if_neg hm, cmp_meant_of_pos ha hb, cmp_abs_meant ha.ne' hb.ne' hm]
  · rw [compare_of_sign hsign, cmp_meant_of_sign hsign]

theorem equal_iff_meant : a.equal b = true ↔ a.meant = b.meant := by
  rw [equal, compare_eq_cmp, beq_iff_eq, cmp_eq_eq_iff]

/-! ## Arithmetic -/

theorem meant_digitsAt {scale : Int} (h : d.scale ≤ scale) :
    (⟨d.digitsAt scale, scale⟩ : Decimal).meant = d.meant := by
  rw [meant, digitsAt_eq h, mul_assoc, ← zpow_add₀ (by norm_num), add_neg_cancel, zpow_zero,
    mul_one]

theorem meant_add (a b : Decimal) : (a.add b).meant = a.meant + b.meant := by
  rw [← meant_digitsAt (le_max_left a.scale b.scale),
    ← meant_digitsAt (le_max_right a.scale b.scale)]
  simp only [add, meant, Int.cast_add, add_mul]

theorem meant_sub (a b : Decimal) : (a.sub b).meant = a.meant - b.meant := by
  unfold sub
  split
  · next hb => rw [isZero_iff.mp hb, sub_zero]
  · split
    · next ha => rw [isZero_iff.mp ha, zero_sub, meant_neg]
    · rw [← meant_digitsAt (le_max_left a.scale b.scale),
        ← meant_digitsAt (le_max_right a.scale b.scale)]
      simp only [meant, Int.cast_sub, sub_mul]

theorem isOne_iff : d.isOne = true ↔ d.meant = 1 := by
  rw [isOne, equal_iff_meant, show (⟨1, 0⟩ : Decimal) = ofInt 1 from rfl, meant_ofInt, Int.cast_one]

theorem meant_mul (a b : Decimal) : (a.mul b).meant = a.meant * b.meant := by
  unfold mul
  split
  · next ha => rw [isOne_iff.mp ha, one_mul]
  · split
    · next hb => rw [isOne_iff.mp hb, mul_one]
    · simp only [meant, Int.cast_mul, neg_add, zpow_add₀ (show (10 : ℚ) ≠ 0 by norm_num)]
      ring

protected theorem add_comm (a b : Decimal) : a.add b = b.add a := by
  simp only [add, max_comm b.scale, Int.add_comm (b.digitsAt _)]

end Decimal

end ExprLang

/-! ## Truncation

Decimal numbers truncated toward zero. Only the low 32 bits of the scale count for the
truncation of the program; where this makes a difference is said exactly. -/

namespace ExprLang

/-- The integer nearest to a number toward zero. -/
def towardZero (q : ℚ) : Int := if 0 ≤ q then ⌊q⌋ else ⌈q⌉

theorem towardZero_intCast (n : Int) : towardZero n = n := by simp [towardZero]

theorem towardZero_div (n : Int) (m : Nat) : towardZero (n / m) = n.tdiv m := by
  have hm : (0 : ℚ) ≤ m := Nat.cast_nonneg m
  unfold towardZero
  by_cases hn : 0 ≤ n
  · have hn0 : (0 : ℚ) ≤ n := by exact_mod_cast hn
    rw [if_pos (div_nonneg hn0 hm), Rat.floor_intCast_div_natCast, Int.tdiv_eq_ediv_of_nonneg hn]
  · have hneg : n.tdiv m = -(-n / m) := by
      rw [← Int.tdiv_eq_ediv_of_nonneg (by omega), Int.neg_tdiv, neg_neg]
    rw [hneg, Rat.ceil_intCast_div_natCast]
    split
    · next hq =>
      have hn0 : (n : ℚ) < 0 := by exact_mod_cast not_le.mp hn
      obtain rfl : m = 0 := by
        by_contra hm0
        exact absurd (div_neg_of_neg_of_pos hn0 (by exact_mod_cast Nat.pos_of_ne_zero hm0))
          (not_lt.mpr hq)
      simp
    · rfl

/-- Two truncated quotients are equal where the sizes' quotients are. -/
theorem tdiv_natCast_inj {n : Int} {k m : Nat} :
    n.tdiv k = n.tdiv m ↔ n.natAbs / k = n.natAbs / m := by
  obtain ⟨a, rfl | rfl⟩ := n.eq_nat_or_neg
  · rw [Int.natAbs_natCast, ← Int.ofNat_tdiv, ← Int.ofNat_tdiv, Int.ofNat_inj]
  · rw [Int.natAbs_neg, Int.natAbs_natCast, Int.neg_tdiv, Int.neg_tdiv, ← Int.ofNat_tdiv,
      ← Int.ofNat_tdiv, neg_inj, Int.ofNat_inj]

/-- Dividing by more powers of ten makes no difference only where nothing is left. -/
theorem div_pow_eq_iff {n k m : Nat} (h : k < m) : n / 10 ^ k = n / 10 ^ m ↔ n < 10 ^ k := by
  have hpow : 10 ^ m = 10 ^ k * 10 ^ (m - k) := by rw [← pow_add, Nat.add_sub_cancel' h.le]
  have hone : 1 < 10 ^ (m - k) := Nat.one_lt_pow (by omega) (by decide)
  rw [hpow, ← Nat.div_div_eq_div_mul, ← Nat.div_eq_zero_iff_lt (by positivity)]
  constructor
  · intro heq
    by_contra hne
    exact absurd heq (Nat.div_lt_self (Nat.pos_of_ne_zero hne) hone).ne'
  · intro hzero
    rw [hzero, Nat.zero_div]

namespace Decimal
variable {d : Decimal}

theorem towardZero_meant_of_pos (h : 0 < d.scale) :
    towardZero d.meant = d.digits.tdiv (10 ^ d.scale.toNat : Nat) := by
  have hpow : (10 : ℚ) ^ d.scale = (10 ^ d.scale.toNat : Nat) := by
    rw [Nat.cast_pow, ← zpow_natCast, Int.toNat_of_nonneg h.le, Nat.cast_ofNat]
  rw [← towardZero_div, meant, zpow_neg, ← div_eq_mul_inv, hpow]

/-- Digits that all stand below the point leave nothing. -/
theorem towardZero_meant_of_small (h : 0 < d.scale) (hd : d.digits.natAbs < 10 ^ d.scale.toNat) :
    towardZero d.meant = 0 := by
  have hquot : d.digits.tdiv (10 ^ d.scale.toNat : Nat) = d.digits.tdiv (0 : Nat) :=
    tdiv_natCast_inj.mpr (by rw [Nat.div_eq_of_lt hd, Nat.div_zero])
  rw [towardZero_meant_of_pos h, hquot, Int.ofNat_zero, Int.tdiv_zero]

theorem towardZero_meant_of_nonpos (h : d.scale ≤ 0) :
    towardZero d.meant = d.digits * (10 ^ (-d.scale).toNat : Nat) := by
  have hpow : (10 : ℚ) ^ (-d.scale) = ((10 ^ (-d.scale).toNat : Nat) : Int) := by
    rw [Int.cast_natCast, Nat.cast_pow, ← zpow_natCast, Int.toNat_of_nonneg (by omega),
      Nat.cast_ofNat]
  rw [meant, hpow, ← Int.cast_mul, towardZero_intCast]

/-- The truncation is exact unless the scale is too wide and its low 32 bits leave something. -/
theorem truncate_eq_iff (d : Decimal) :
    d.truncate = towardZero d.meant ↔
      |d.scale| < 2 ^ 32 ∨ d.digits = 0 ∨
        0 < d.scale ∧ d.digits.natAbs < 10 ^ (d.scale % 2 ^ 32).toNat := by
  unfold truncate
  rw [tenTo_eq_pow, tenTo_eq_pow]
  by_cases h : 0 < d.scale
  · rw [if_pos h, towardZero_meant_of_pos h, tdiv_natCast_inj, abs_of_pos h]
    by_cases hfits : d.scale < 2 ^ 32
    · rw [Int.emod_eq_of_lt h.le hfits]
      exact iff_of_true rfl (.inl hfits)
    · have hzero : d.digits = 0 → d.digits.natAbs < 10 ^ (d.scale % 2 ^ 32).toNat := fun h0 => by
        rw [h0]
        positivity
      rw [div_pow_eq_iff (by omega)]
      tauto
  · rw [if_neg h, towardZero_meant_of_nonpos (not_lt.mp h), abs_of_nonpos (not_lt.mp h)]
    by_cases hfits : -d.scale < 2 ^ 32
    · rw [Int.emod_eq_of_lt (by omega) hfits]
      exact iff_of_true rfl (.inl hfits)
    · have hne : (-d.scale % 2 ^ 32).toNat ≠ (-d.scale).toNat := by omega
      have hpow : ((10 ^ (-d.scale % 2 ^ 32).toNat : Nat) : Int) ≠ (10 ^ (-d.scale).toNat : Nat) :=
        fun heq => hne (Nat.pow_right_injective (by decide) (Int.ofNat_inj.mp heq))
      rw [mul_eq_mul_left_iff]
      tauto

end Decimal

end ExprLang
