import ExprLang.Number.Binary
import Mathlib.Algebra.Order.Field.Power
import Mathlib.Tactic.FieldSimp
import Mathlib.Tactic.Linarith
import Mathlib.Tactic.NormNum

/-! Rounding to nearest: the ratios from which a number of a binary format comes. -/

namespace ExprLang

theorem twoPow_eq (n : Nat) : twoPow n = 2 ^ n := rfl

theorem tenPow_eq (n : Nat) : tenPow n = 10 ^ n := rfl

theorem cast_twoPow (n : Nat) : ((twoPow n : Nat) : ℚ) = 2 ^ n := by
  rw [twoPow_eq, Nat.cast_pow, Nat.cast_ofNat]

theorem cast_tenPow (n : Nat) : ((tenPow n : Nat) : ℚ) = 10 ^ n := by
  rw [tenPow_eq, Nat.cast_pow, Nat.cast_ofNat]

/-- A ratio of powers with natural exponents is one power. -/
theorem pow_toNat_div (b : ℚ) (k : Int) : b ^ k.toNat / b ^ (-k).toNat = b ^ k := by
  rcases le_total 0 k with hk | hk
  · rw [Int.toNat_of_nonpos (by omega : -k ≤ 0), pow_zero, div_one, ← zpow_natCast,
      Int.toNat_of_nonneg hk]
  · rw [Int.toNat_of_nonpos hk, pow_zero, ← zpow_natCast b (-k).toNat,
      Int.toNat_of_nonneg (by omega : 0 ≤ -k), zpow_neg, one_div, inv_inv]

/-- A ratio at another exponent, with its parts whole. -/
theorem ratio_scaled {b num den : ℚ} (hb : b ≠ 0) (k : Int) :
    num * b ^ (-k).toNat / (den * b ^ k.toNat) = num / den / b ^ k := by
  rw [← pow_toNat_div b k]
  by_cases hden : den = 0
  · simp [hden]
  · field_simp

/-- The exponent of the leading digit of a ratio is the difference of those of its parts, or one
less. -/
theorem leadingExponent_bounds {b num den i j : Nat} {guess : Int} (hb : 2 ≤ b)
    (hnum : b ^ i ≤ num) (hnum' : num < b ^ (i + 1)) (hden : b ^ j ≤ den) (hden' : den < b ^ (j + 1))
    (hguess : guess = (i : Int) - j) :
    let e := if den * b ^ guess.toNat ≤ num * b ^ (-guess).toNat then guess else guess - 1
    (b : ℚ) ^ e ≤ num / den ∧ (num : ℚ) / den < b ^ (e + 1) := by
  have hb0 : (0 : ℚ) < b := by exact_mod_cast (by omega : 0 < b)
  have hd0 : (0 : ℚ) < den := by exact_mod_cast lt_of_lt_of_le (by positivity) hden
  have hn : (b : ℚ) ^ i ≤ num := by exact_mod_cast hnum
  have hn' : (num : ℚ) < b ^ (i + 1) := by exact_mod_cast hnum'
  have hd : (b : ℚ) ^ j ≤ den := by exact_mod_cast hden
  have hd' : (den : ℚ) < b ^ (j + 1) := by exact_mod_cast hden'
  have hlow : (b : ℚ) ^ (guess - 1) ≤ num / den := by
    rw [le_div_iff₀ hd0]
    calc (b : ℚ) ^ (guess - 1) * den ≤ b ^ (guess - 1) * b ^ (j + 1) := by gcongr
      _ = b ^ i := by
        rw [← zpow_natCast, ← zpow_natCast, ← zpow_add₀ hb0.ne']
        congr 1
        push_cast
        omega
      _ ≤ num := hn
  have hhigh : (num : ℚ) / den < b ^ (guess + 1) := by
    rw [div_lt_iff₀ hd0]
    calc (num : ℚ) < b ^ (i + 1) := hn'
      _ = b ^ (guess + 1) * b ^ j := by
        rw [← zpow_natCast, ← zpow_natCast, ← zpow_add₀ hb0.ne']
        congr 1
        push_cast
        omega
      _ ≤ b ^ (guess + 1) * den := by gcongr
  have htest : den * b ^ guess.toNat ≤ num * b ^ (-guess).toNat ↔ (b : ℚ) ^ guess ≤ num / den := by
    rw [← pow_toNat_div, div_le_div_iff₀ (by positivity) hd0]
    rw [mul_comm den]
    exact_mod_cast Iff.rfl
  dsimp only
  split
  · next h => exact ⟨htest.mp h, hhigh⟩
  · next h => exact ⟨hlow, by simpa using htest.not.mp h⟩

namespace Binary
variable {f : FloatFormat}

theorem ratioExponent_bounds {num den : Nat} (hnum : 0 < num) (hden : 0 < den) :
    (2 : ℚ) ^ ratioExponent num den ≤ num / den ∧
      (num : ℚ) / den < 2 ^ (ratioExponent num den + 1) := by
  exact leadingExponent_bounds (le_refl 2) (Nat.log2_self_le hnum.ne') Nat.lt_log2_self
    (Nat.log2_self_le hden.ne') Nat.lt_log2_self rfl

/-- The exponent is that of the greatest power below the ratio. -/
theorem ratioExponent_lt {num den : Nat} {k : Int} (hnum : 0 < num) (hden : 0 < den)
    (h : (num : ℚ) / den < 2 ^ k) : ratioExponent num den < k :=
  (zpow_lt_zpow_iff_right₀ one_lt_two).mp ((ratioExponent_bounds hnum hden).1.trans_lt h)

theorem le_ratioExponent {num den : Nat} {k : Int} (hnum : 0 < num) (hden : 0 < den)
    (h : (2 : ℚ) ^ k ≤ num / den) : k ≤ ratioExponent num den :=
  Int.lt_add_one_iff.mp
    ((zpow_lt_zpow_iff_right₀ one_lt_two).mp (h.trans_lt (ratioExponent_bounds hnum hden).2))

/-! ## The nearest whole number -/

theorem divideEven_eq_of_double {num den m : Nat} (hden : 0 < den)
    (hlow : 2 * (den * m) ≤ 2 * num + den) (hhigh : 2 * num ≤ 2 * (den * m) + den)
    (hodd : m % 2 = 1 → 2 * (den * m) < 2 * num + den ∧ 2 * num < 2 * (den * m) + den) :
    divideEven num den = m := by
  have hsplit := Nat.div_add_mod num den
  have hrest := Nat.mod_lt num hden
  unfold divideEven
  generalize num / den = q at hsplit
  generalize num % den = r at hsplit hrest
  subst hsplit
  dsimp only
  -- the quotient is the number itself or the one before
  obtain rfl | rfl : q = m ∨ q + 1 = m := by
    rcases lt_trichotomy q m with h | h | h
    · right
      by_contra hne
      have := Nat.mul_le_mul_left den (by omega : q + 2 ≤ m)
      rw [Nat.mul_add] at this
      omega
    · exact .inl h
    · have := Nat.mul_le_mul_left den (by omega : m + 1 ≤ q)
      rw [Nat.mul_add] at this
      omega
  · split
    · rfl
    · split
      · omega
      · split
        · rfl
        · have := (hodd (by omega)).2
          omega
  · rw [Nat.mul_add] at hlow hhigh hodd
    split
    · omega
    · split
      · rfl
      · split
        · have := (hodd (by omega)).1
          omega
        · rfl

/-- The half open ends of the interval belong to the even numbers. -/
theorem divideEven_eq {num den m : Nat} (hden : 0 < den) (hlow : (m : ℚ) - 1 / 2 ≤ num / den)
    (hhigh : (num : ℚ) / den ≤ m + 1 / 2)
    (hodd : m % 2 = 1 → (m : ℚ) - 1 / 2 < num / den ∧ (num : ℚ) / den < m + 1 / 2) :
    divideEven num den = m := by
  have hd0 : (0 : ℚ) < den := by exact_mod_cast hden
  rw [le_div_iff₀ hd0] at hlow
  rw [div_le_iff₀ hd0] at hhigh
  rw [lt_div_iff₀ hd0, div_lt_iff₀ hd0] at hodd
  refine divideEven_eq_of_double hden ?_ ?_ fun h => ?_
  · have hlow : (2 : ℚ) * (den * m) ≤ 2 * num + den := by linarith
    exact_mod_cast hlow
  · have hhigh : (2 : ℚ) * num ≤ 2 * (den * m) + den := by linarith
    exact_mod_cast hhigh
  · obtain ⟨h1, h2⟩ := hodd h
    have h1 : (2 : ℚ) * (den * m) < 2 * num + den := by linarith
    have h2 : (2 : ℚ) * num < 2 * (den * m) + den := by linarith
    exact ⟨by exact_mod_cast h1, by exact_mod_cast h2⟩

/-! ## The nearest number of a format -/

/-- A number as its format stores it: with all bits of the significand, unless the exponent is
the least one. -/
inductive Canonical : Binary f → Prop
  | nan : Canonical nan
  | infinite (s : Bool) : Canonical (infinite s)
  | finite (s : Bool) {m : Nat} {e : Int} (below : m < 2 ^ f.precision)
      (full : 2 ^ (f.precision - 1) ≤ m ∨ e = f.minExponent) (least : f.minExponent ≤ e)
      (most : e + f.precision - 1 ≤ f.maxExponent) : Canonical (finite s m e)

/-- How far down the numbers reach that round to `m * 2 ^ e`, in units of the last bit. -/
def reach (f : FloatFormat) (m : Nat) (e : Int) : ℚ :=
  if m = 2 ^ (f.precision - 1) ∧ f.minExponent < e then 1 / 4 else 1 / 2

theorem reach_le (m : Nat) (e : Int) : reach f m e ≤ 1 / 2 := by
  unfold reach
  split <;> norm_num

/-- A ratio lies nearer to `m * 2 ^ e` than to any other number of the format; as near as to
another one only where `m` is even. -/
structure RoundsTo (f : FloatFormat) (m : Nat) (e : Int) (x : ℚ) : Prop where
  low : (m - reach f m e) * 2 ^ e ≤ x
  high : x ≤ (m + 1 / 2) * 2 ^ e
  odd : m % 2 = 1 → (m - reach f m e) * 2 ^ e < x ∧ x < (m + 1 / 2) * 2 ^ e

/-- One rounding at the exponent of the number gives its significand. -/
theorem RoundsTo.divideEven_eq {m : Nat} {e : Int} {num den : Nat} (hden : 0 < den)
    (h : RoundsTo f m e (num / den)) :
    divideEven (num * twoPow (-e).toNat) (den * twoPow e.toNat) = m := by
  have hpow : (0 : ℚ) < 2 ^ e := by positivity
  have hreach := reach_le (f := f) m e
  have hratio : ((num * twoPow (-e).toNat : Nat) : ℚ) / (den * twoPow e.toNat : Nat) =
      num / den / 2 ^ e := by
    rw [Nat.cast_mul, Nat.cast_mul, cast_twoPow, cast_twoPow]
    exact ratio_scaled two_ne_zero e
  apply Binary.divideEven_eq
  · exact Nat.mul_pos hden (Nat.pow_pos (by omega))
  · rw [hratio, le_div_iff₀ hpow]
    exact le_trans (by gcongr) h.low
  · rw [hratio, div_le_iff₀ hpow]
    exact h.high
  · intro hodd
    rw [hratio, lt_div_iff₀ hpow, div_lt_iff₀ hpow]
    exact ⟨lt_of_le_of_lt (by gcongr) (h.odd hodd).1, (h.odd hodd).2⟩

/-- Below a power of two the rounding happens one exponent lower, and carries. -/
theorem RoundsTo.divideEven_carry {e : Int} {num den : Nat} (hden : 0 < den)
    (hp : 0 < f.precision) (he : f.minExponent < e)
    (h : RoundsTo f (2 ^ (f.precision - 1)) e (num / den))
    (hbelow : (num : ℚ) / den < 2 ^ (f.precision - 1) * 2 ^ e) :
    divideEven (num * twoPow (-(e - 1)).toNat) (den * twoPow (e - 1).toNat) = 2 ^ f.precision := by
  have hpow : (0 : ℚ) < 2 ^ (e - 1) := by positivity
  have hdouble : (2 : ℚ) ^ e = 2 * 2 ^ (e - 1) := by
    rw [← zpow_one_add₀ two_ne_zero]
    congr 1
    omega
  have hfull : (2 : ℚ) ^ f.precision = 2 * 2 ^ (f.precision - 1) := by
    rw [← pow_succ']
    congr 1
    omega
  have hratio : ((num * twoPow (-(e - 1)).toNat : Nat) : ℚ) / (den * twoPow (e - 1).toNat : Nat) =
      num / den / 2 ^ (e - 1) := by
    rw [Nat.cast_mul, Nat.cast_mul, cast_twoPow, cast_twoPow]
    exact ratio_scaled two_ne_zero (e - 1)
  have hlow := h.low
  rw [reach, if_pos ⟨rfl, he⟩] at hlow
  push_cast at hlow
  have heven : 2 ^ f.precision % 2 = 0 := by
    rw [← Nat.sub_add_cancel hp, pow_succ]
    omega
  apply Binary.divideEven_eq
  · exact Nat.mul_pos hden (Nat.pow_pos (by omega))
  · rw [hratio, le_div_iff₀ hpow]
    push_cast
    rw [hfull]
    rw [hdouble] at hlow
    linarith
  · rw [hratio, div_le_iff₀ hpow]
    push_cast
    rw [hfull]
    rw [hdouble] at hbelow
    linarith
  · intro hodd
    omega

theorem two_zpow_add (k e : Int) : (2 : ℚ) ^ (k + e) = 2 ^ k * 2 ^ e := zpow_add₀ two_ne_zero k e

theorem two_zpow_pred (hp : 0 < f.precision) :
    (2 : ℚ) ^ ((f.precision : Int) - 1) = 2 ^ (f.precision - 1) := by
  rw [← zpow_natCast]
  congr 1
  omega

namespace RoundsTo

variable {m : Nat} {e : Int} {x : ℚ} (h : RoundsTo f m e x)
include h

theorem pos (hm : 0 < m) : 0 < x := by
  have hmq : (1 : ℚ) ≤ m := by exact_mod_cast hm
  have hreach := reach_le (f := f) m e
  exact lt_of_lt_of_le (mul_pos (by linarith) (by positivity)) h.low

/-- What rounds to a number lies below the next power of two. -/
theorem lt_two_zpow (hbelow : m < 2 ^ f.precision) : x < 2 ^ ((f.precision : Int) + e) := by
  have hm1 : (m : ℚ) + 1 ≤ 2 ^ f.precision := by exact_mod_cast hbelow
  have hpow : (0 : ℚ) < 2 ^ e := by positivity
  rw [two_zpow_add, zpow_natCast]
  exact lt_of_le_of_lt h.high (mul_lt_mul_of_pos_right (by linarith) hpow)

/-- Only a power of two is the nearest number of ratios with a lower exponent. -/
theorem eq_two_pow (hle : 2 ^ (f.precision - 1) ≤ m) (hlt : x < 2 ^ (f.precision - 1) * 2 ^ e) :
    m = 2 ^ (f.precision - 1) := by
  have hreach := reach_le (f := f) m e
  by_contra hne
  have hgt : (2 : ℚ) ^ (f.precision - 1) + 1 ≤ m := by
    exact_mod_cast Nat.lt_of_le_of_ne hle (Ne.symm hne)
  have hbound : (2 : ℚ) ^ (f.precision - 1) * 2 ^ e ≤ (m - reach f m e) * 2 ^ e := by
    gcongr
    linarith
  linarith [h.low]

end RoundsTo

/-- These ratios lie not far below the power. -/
theorem RoundsTo.half_le {e : Int} {x : ℚ} (h : RoundsTo f (2 ^ (f.precision - 1)) e x)
    (hp : 0 < f.precision) (he : f.minExponent < e) :
    2 ^ ((f.precision : Int) - 1 + e - 1) ≤ x := by
  refine le_trans ?_ h.low
  rw [show (f.precision : Int) - 1 + e - 1 = (f.precision - 1 + e) + (-1) by omega,
    two_zpow_add, two_zpow_add, two_zpow_pred hp, reach, if_pos ⟨rfl, he⟩]
  have hone : (1 : ℚ) ≤ 2 ^ (f.precision - 1) := one_le_pow₀ one_le_two
  have hhalf : (2 : ℚ) ^ (-1 : Int) = 1 / 2 := by norm_num
  push_cast
  rw [hhalf]
  nlinarith [show (0 : ℚ) < 2 ^ e by positivity]

/-- Rounding finds a number from every ratio in its neighbourhood. -/
theorem ofRatio_eq {s : Bool} {m : Nat} {e : Int} {num den : Nat}
    (hc : Canonical (finite s m e : Binary f)) (hm : 0 < m) (hden : 0 < den)
    (h : RoundsTo f m e (num / den)) : (ofRatio s num den : Binary f) = finite s m e := by
  obtain _ | _ | ⟨_, hbelow, hfull, hleast, hmost⟩ := hc
  have hp : 0 < f.precision := by
    rcases Nat.eq_zero_or_pos f.precision with h0 | h0
    · rw [h0] at hbelow
      omega
    · exact h0
  have hnum : 0 < num := by
    rcases Nat.eq_zero_or_pos num with h0 | h0
    · have hpos := h.pos hm
      simp [h0] at hpos
    · exact h0
  have htop := ratioExponent_lt hnum hden (h.lt_two_zpow hbelow)
  unfold ofRatio
  rw [if_neg hnum.ne']
  by_cases hcarry : (num : ℚ) / den < 2 ^ (f.precision - 1) * 2 ^ e ∧ f.minExponent < e
  · obtain ⟨hlt, he⟩ := hcarry
    obtain rfl := h.eq_two_pow (hfull.resolve_right (by omega)) hlt
    have hup : ratioExponent num den < (f.precision : Int) - 1 + e := by
      refine ratioExponent_lt hnum hden ?_
      rwa [two_zpow_add, two_zpow_pred hp]
    have hdown := le_ratioExponent hnum hden (h.half_le hp he)
    have hmax : max (ratioExponent num den - ((f.precision : Int) - 1)) f.minExponent = e - 1 := by
      omega
    rw [hmax]
    dsimp only
    rw [h.divideEven_carry hden hp he hlt]
    simp only [twoPow_eq, if_true]
    rw [if_neg (by omega)]
    congr 1
    omega
  · have hmax : max (ratioExponent num den - ((f.precision : Int) - 1)) f.minExponent = e := by
      rcases not_and_or.mp hcarry with hge | hmin
      · have hdown : (f.precision : Int) - 1 + e ≤ ratioExponent num den := by
          refine le_ratioExponent hnum hden ?_
          rw [two_zpow_add, two_zpow_pred hp]
          exact not_lt.mp hge
        omega
      · omega
    rw [hmax]
    dsimp only
    rw [h.divideEven_eq hden]
    have hne : m ≠ twoPow f.precision := by
      rw [twoPow_eq]
      omega
    simp only [if_neg hne]
    rw [if_neg (by omega)]

end Binary

end ExprLang
