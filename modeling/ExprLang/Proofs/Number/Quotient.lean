import ExprLang.Proofs.Number.Meant

/-! The quotient of two decimal numbers is the number nearest to the exact one at the scale of the
dividend, ties going away from zero. -/

namespace ExprLang

namespace Decimal
open IntegerText (signed)
variable {a b d e : Decimal} {q : ℚ}

/-- A number nearest to `q` among those of its scale, of two that are as near the one further from
zero. -/
structure HalfUp (d : Decimal) (q : ℚ) : Prop where
  near : |d.meant - q| ≤ 1 / 2 * 10 ^ (-d.scale)
  away : |d.meant - q| = 1 / 2 * 10 ^ (-d.scale) → |q| < |d.meant|

/-- In units of the scale. -/
theorem halfUp_iff (n scale : Int) (q : ℚ) :
    HalfUp ⟨n, scale⟩ (q * 10 ^ (-scale)) ↔
      |(n : ℚ) - q| ≤ 1 / 2 ∧ (|(n : ℚ) - q| = 1 / 2 → |q| < |(n : ℚ)|) := by
  have hpow : (0 : ℚ) < 10 ^ (-scale) := by positivity
  have hdistance : |(⟨n, scale⟩ : Decimal).meant - q * 10 ^ (-scale)| =
      |(n : ℚ) - q| * 10 ^ (-scale) := by
    rw [meant, ← sub_mul, abs_mul, abs_of_pos hpow]
  have hsize : |q * 10 ^ (-scale)| < |(⟨n, scale⟩ : Decimal).meant| ↔ |q| < |(n : ℚ)| := by
    rw [meant, abs_mul, abs_mul, abs_of_pos hpow, mul_lt_mul_iff_left₀ hpow]
  constructor
  · rintro ⟨hnear, haway⟩
    rw [hdistance] at hnear haway
    exact ⟨le_of_mul_le_mul_right hnear hpow,
      fun htie => hsize.mp (haway (congrArg (· * (10 : ℚ) ^ (-scale)) htie))⟩
  · rintro ⟨hnear, haway⟩
    refine ⟨?_, fun htie => hsize.mpr (haway ?_)⟩
    · rw [hdistance]
      exact mul_le_mul_of_nonneg_right hnear hpow.le
    · rw [hdistance] at htie
      exact mul_right_cancel₀ hpow.ne' htie

/-- Two neighbours are never both nearest: the one further from zero has the tie. -/
theorem nearest_not_neighbours {n : Int} {q : ℚ} (hn : |(n : ℚ) - q| ≤ 1 / 2)
    (hm : |((n + 1 : Int) : ℚ) - q| ≤ 1 / 2) (haway : |(n : ℚ) - q| = 1 / 2 → |q| < |(n : ℚ)|)
    (haway' : |((n + 1 : Int) : ℚ) - q| = 1 / 2 → |q| < |((n + 1 : Int) : ℚ)|) : False := by
  push_cast at hm haway'
  have hq : q = n + 1 / 2 := by
    have hlow := (abs_le.mp hn).1
    have hhigh := (abs_le.mp hm).2
    linarith
  subst hq
  have hleft := haway (by norm_num)
  have hright := haway' (by norm_num)
  rcases le_or_gt 0 n with h0 | h0
  · have hn0 : (0 : ℚ) ≤ n := by exact_mod_cast h0
    rw [abs_of_nonneg hn0, abs_of_nonneg (by linarith)] at hleft
    linarith
  · have hn0 : (n : ℚ) + 1 ≤ 0 := by exact_mod_cast h0
    rw [abs_of_nonpos hn0, abs_of_nonpos (by linarith)] at hright
    linarith

/-- There is one nearest number at a scale. -/
theorem HalfUp.unique (hd : d.HalfUp q) (he : e.HalfUp q) (hscale : d.scale = e.scale) : d = e := by
  obtain ⟨n, scale⟩ := d
  obtain ⟨m, _⟩ := e
  obtain rfl : scale = _ := hscale
  have hpow : (10 : ℚ) ^ (-scale) ≠ 0 := by positivity
  rw [← div_mul_cancel₀ q hpow, halfUp_iff] at hd he
  obtain ⟨hn, hn'⟩ := hd
  obtain ⟨hm, hm'⟩ := he
  generalize q / 10 ^ (-scale) = t at hn hn' hm hm'
  have hdistance : |((n - m : Int) : ℚ)| ≤ 1 := by
    push_cast
    rw [abs_le] at hn hm ⊢
    constructor <;> linarith
  have hsteps : |n - m| ≤ 1 := by exact_mod_cast hdistance
  obtain rfl | rfl | rfl : n = m ∨ n + 1 = m ∨ m + 1 = n := by
    rw [abs_le] at hsteps
    omega
  · rfl
  · exact (nearest_not_neighbours hn hm hn' hm').elim
  · exact (nearest_not_neighbours hm hn hm' hn').elim

/-! ## Rounding -/

/-- The quotient of two sizes rounded to nearest, a tie upward. -/
def roundedSize (n d : Nat) : Nat := if 2 * (n % d) < d then n / d else n / d + 1

/-- It lies less than half below the quotient and no more than half above. -/
theorem roundedSize_bounds {n d : Nat} (hd : 0 < d) :
    -(1 / 2) < (roundedSize n d : ℚ) - n / d ∧ (roundedSize n d : ℚ) - n / d ≤ 1 / 2 := by
  have hd0 : (0 : ℚ) < d := by exact_mod_cast hd
  have hdouble : 2 * n < 2 * (roundedSize n d * d) + d ∧ 2 * (roundedSize n d * d) ≤ 2 * n + d := by
    have hsplit := Nat.div_add_mod' n d
    have hrest := Nat.mod_lt n hd
    unfold roundedSize
    split <;> (try rw [Nat.add_mul]) <;> omega
  have hlow : (2 : ℚ) * n < 2 * (roundedSize n d * d) + d := by exact_mod_cast hdouble.1
  have hhigh : (2 : ℚ) * (roundedSize n d * d) ≤ 2 * n + d := by exact_mod_cast hdouble.2
  rw [sub_div' hd0.ne', lt_div_iff₀ hd0, div_le_iff₀ hd0]
  constructor <;> linarith

/-- An integer by its sign and size. -/
theorem eq_signed (n : Int) : n = signed (decide (n < 0)) n.natAbs := by
  unfold signed
  by_cases hn : n < 0
  · rw [if_pos (decide_eq_true hn)]
    omega
  · rw [if_neg (by simpa using hn)]
    omega

theorem abs_signed (negative : Bool) (n : Nat) : |(signed negative n : ℚ)| = n := by
  cases negative <;> simp [signed]

/-- A quotient is that of the sizes, negative where the signs differ. -/
theorem signed_div_signed (s t : Bool) (n d : Nat) :
    (signed s n : ℚ) / signed t d = if s != t then -((n : ℚ) / d) else n / d := by
  cases s <;> cases t <;> simp [signed, div_neg, neg_div]

theorem signed_tdiv_signed (s t : Bool) (n d : Nat) :
    (signed s n).tdiv (signed t d) = signed (s != t) (n / d) := by
  cases s <;> cases t <;> simp [signed, Int.tdiv_neg, Int.neg_tdiv]

/-- The truncated quotient, or the next one where the remainder is half of the divisor or more. -/
theorem rounded_eq (num den : Int) :
    (if 2 * (num.tmod den).natAbs < den.natAbs then num.tdiv den
      else if decide (num < 0) != decide (den < 0) then num.tdiv den - 1 else num.tdiv den + 1) =
      signed (decide (num < 0) != decide (den < 0)) (roundedSize num.natAbs den.natAbs) := by
  have htdiv := signed_tdiv_signed (decide (num < 0)) (decide (den < 0)) num.natAbs den.natAbs
  rw [← eq_signed, ← eq_signed] at htdiv
  rw [Int.natAbs_tmod, htdiv]
  unfold signed roundedSize
  split <;> split <;> push_cast <;> omega

theorem cast_div_eq (num den : Int) :
    (num : ℚ) / den = if decide (num < 0) != decide (den < 0)
      then -((num.natAbs : ℚ) / den.natAbs) else num.natAbs / den.natAbs := by
  rw [← signed_div_signed, ← eq_signed, ← eq_signed]

/-- A rounded quotient of integers is nearest to the exact one. -/
theorem rounded_nearest {num den : Int} (hden : den ≠ 0) :
    let k := signed (decide (num < 0) != decide (den < 0)) (roundedSize num.natAbs den.natAbs)
    |(k : ℚ) - num / den| ≤ 1 / 2 ∧
      (|(k : ℚ) - num / den| = 1 / 2 → |(num : ℚ) / den| < |(k : ℚ)|) := by
  obtain ⟨hlow, hhigh⟩ := roundedSize_bounds (n := num.natAbs) (Int.natAbs_pos.mpr hden)
  have hsize : 0 ≤ (num.natAbs : ℚ) / den.natAbs :=
    div_nonneg (Nat.cast_nonneg _) (Nat.cast_nonneg _)
  dsimp only
  rw [cast_div_eq, abs_signed]
  generalize roundedSize num.natAbs den.natAbs = k at *
  generalize (num.natAbs : ℚ) / den.natAbs = q at *
  have hnear : |(k : ℚ) - q| ≤ 1 / 2 ∧ (|(k : ℚ) - q| = 1 / 2 → q < k) := by
    refine ⟨abs_le.mpr ⟨hlow.le, hhigh⟩, fun htie => ?_⟩
    rcases (abs_eq (by norm_num)).mp htie with h | h <;> linarith
  cases decide (num < 0) != decide (den < 0)
  · simpa [signed, abs_of_nonneg hsize] using hnear
  · simpa [signed, abs_of_nonneg hsize, ← neg_add', abs_neg, neg_add_eq_sub, abs_sub_comm]
      using hnear

/-- The quotient of decimals in units of the dividend's scale. -/
theorem meant_div {num den : Int} (hratio : (num : ℚ) / den = a.digits / b.digits * 10 ^ b.scale) :
    a.meant / b.meant = (num : ℚ) / den * 10 ^ (-a.scale) := by
  rw [hratio, meant, meant, zpow_neg 10 b.scale]
  field_simp

/-- The divisor's power of ten multiplies the dividend or the divisor, by the sign of its scale. -/
theorem scaled_ratio (hzero : b.digits ≠ 0) (hscale : |b.scale| < 2 ^ 32) {num den : Int}
    (hnum : (if 0 ≤ b.scale then a.digits * tenTo b.scale else a.digits) = num)
    (hden : (if 0 ≤ b.scale then b.digits else b.digits * tenTo (-b.scale)) = den) :
    den ≠ 0 ∧ (num : ℚ) / den = a.digits / b.digits * 10 ^ b.scale := by
  have hb : (b.digits : ℚ) ≠ 0 := by exact_mod_cast hzero
  rw [abs_lt] at hscale
  subst hnum hden
  by_cases h0 : 0 ≤ b.scale
  · simp only [if_pos h0, tenTo_eq h0 (by omega)]
    refine ⟨hzero, ?_⟩
    rw [← pow_toNat_div, Int.toNat_of_nonpos (by omega : -b.scale ≤ 0)]
    push_cast
    field_simp
  · simp only [if_neg h0, tenTo_eq (by omega : 0 ≤ -b.scale) (by omega)]
    refine ⟨mul_ne_zero hzero (by positivity), ?_⟩
    rw [← pow_toNat_div, Int.toNat_of_nonpos (by omega : b.scale ≤ 0)]
    push_cast
    field_simp

/-- Division by a number that is not zero and whose scale fits 32 bits is exact up to rounding. -/
theorem divideHalfUp?_spec (hzero : b.digits ≠ 0) (hscale : |b.scale| < 2 ^ 32) :
    ∃ d, a.divideHalfUp? b = some d ∧ d.scale = a.scale ∧ d.HalfUp (a.meant / b.meant) := by
  unfold divideHalfUp?
  rw [if_neg (by simpa [isZero] using hzero)]
  dsimp only
  rw [rounded_eq]
  generalize hnum : (if 0 ≤ b.scale then a.digits * tenTo b.scale else a.digits) = num
  generalize hden : (if 0 ≤ b.scale then b.digits else b.digits * tenTo (-b.scale)) = den
  obtain ⟨hden0, hratio⟩ := scaled_ratio hzero hscale hnum hden
  refine ⟨_, rfl, rfl, ?_⟩
  rw [meant_div hratio, halfUp_iff]
  exact rounded_nearest hden0

theorem divideHalfUp?_zero (hzero : b.digits = 0) : a.divideHalfUp? b = none := by
  rw [divideHalfUp?, if_pos (by simp [isZero, hzero])]

end Decimal

end ExprLang
