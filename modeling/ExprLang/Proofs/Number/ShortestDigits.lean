import ExprLang.Proofs.Number.Digits
import ExprLang.Proofs.Number.Rounding

/-! The digits that a floating point number is written with round to the number. -/

namespace ExprLang

/-- The numbers of a format are among those of a double. -/
structure FloatFormat.Narrow (f : FloatFormat) : Prop where
  precision : f.precision ≤ 53
  least : -1074 ≤ f.minExponent
  most : f.maxExponent ≤ 1023

theorem FloatFormat.narrow_single : FloatFormat.single.Narrow := ⟨by decide, by decide, by decide⟩

theorem FloatFormat.narrow_double : FloatFormat.double.Narrow := ⟨by decide, by decide, by decide⟩

namespace Binary
variable {f : FloatFormat}

theorem decimalExponent_bounds {num den : Nat} (hnum : 0 < num) (hden : 0 < den) :
    (10 : ℚ) ^ decimalExponent num den ≤ num / den ∧
      (num : ℚ) / den < 10 ^ (decimalExponent num den + 1) := by
  have hn := toDigits_bounds hnum
  have hd := toDigits_bounds hden
  have hnpos : 0 < (Nat.toDigits 10 num).length := Nat.length_toDigits_pos
  have hdpos : 0 < (Nat.toDigits 10 den).length := Nat.length_toDigits_pos
  rw [← Nat.sub_add_cancel hnpos] at hn
  rw [← Nat.sub_add_cancel hdpos] at hd
  exact leadingExponent_bounds (by decide) hn.1 hn.2 hd.1 hd.2 (by omega)

/-! ## The neighbourhood of a number -/

theorem neighbourhood_den_pos (m : Nat) (e : Int) : 0 < (neighbourhood f m e).den :=
  Nat.pow_pos (by decide)

theorem neighbourhood_scale (m : ℚ) (e : Int) :
    m * 2 ^ (e - 2).toNat / 2 ^ (2 - e).toNat = m / 4 * 2 ^ e := by
  have hquarter : (2 : ℚ) ^ (e - 2) = 2 ^ e / 4 := by
    rw [zpow_sub₀ two_ne_zero]
    norm_num
  rw [mul_div_assoc, show 2 - e = -(e - 2) by omega, pow_toNat_div, hquarter]
  ring

theorem neighbourhood_value (m : Nat) (e : Int) :
    ((neighbourhood f m e).value : ℚ) / (neighbourhood f m e).den = m * 2 ^ e := by
  simp only [neighbourhood, Nat.cast_mul, Nat.cast_ofNat, cast_twoPow]
  rw [neighbourhood_scale, mul_div_cancel_left₀ (m : ℚ) four_ne_zero]

theorem neighbourhood_high (m : Nat) (e : Int) :
    ((neighbourhood f m e).high : ℚ) / (neighbourhood f m e).den = (m + 1 / 2) * 2 ^ e := by
  simp only [neighbourhood, Nat.cast_mul, Nat.cast_add, Nat.cast_ofNat, cast_twoPow]
  rw [neighbourhood_scale]
  ring

theorem neighbourhood_low {m : Nat} (hm : 0 < m) (e : Int) :
    ((neighbourhood f m e).low : ℚ) / (neighbourhood f m e).den = (m - reach f m e) * 2 ^ e := by
  have hbelow : (if m = twoPow (f.precision - 1) ∧ f.minExponent < e then 1 else 2) ≤ 4 * m := by
    split <;> omega
  simp only [neighbourhood, Nat.cast_mul, Nat.cast_sub hbelow, Nat.cast_ofNat, cast_twoPow]
  rw [neighbourhood_scale, reach, twoPow_eq]
  split <;> push_cast <;> ring

namespace Neighbourhood

/-- What lies between the bounds, over the common denominator. -/
theorem holds_iff {n : Neighbourhood} (hden : 0 < n.den) (d : Nat) (k : Int) :
    n.holds d k = true ↔
      if n.closed then (n.low : ℚ) / n.den ≤ d * 10 ^ k ∧ (d : ℚ) * 10 ^ k ≤ n.high / n.den
      else (n.low : ℚ) / n.den < d * 10 ^ k ∧ (d : ℚ) * 10 ^ k < n.high / n.den := by
  have hd0 : (0 : ℚ) < n.den := by exact_mod_cast hden
  have hunit : (0 : ℚ) < 10 ^ (-k).toNat := by positivity
  rw [← pow_toNat_div, ← mul_div_assoc]
  simp only [div_le_div_iff₀ hd0 hunit, div_le_div_iff₀ hunit hd0, div_lt_div_iff₀ hd0 hunit,
    div_lt_div_iff₀ hunit hd0]
  rw [← cast_tenPow, ← cast_tenPow]
  unfold holds
  by_cases hclosed : n.closed = true
  · simp only [hclosed, if_true, Bool.and_eq_true, decide_eq_true_eq]
    exact_mod_cast Iff.rfl
  · simp only [hclosed, Bool.false_eq_true, if_false, Bool.and_eq_true, decide_eq_true_eq]
    exact_mod_cast Iff.rfl

/-- What lies well between the bounds is held, whether or not these belong to it. -/
theorem holds_of_between {n : Neighbourhood} (hden : 0 < n.den) {d : Nat} {k : Int}
    (hlow : (n.low : ℚ) / n.den < d * 10 ^ k) (hhigh : (d : ℚ) * 10 ^ k < n.high / n.den) :
    n.holds d k = true := by
  rw [holds_iff hden]
  split
  · exact ⟨hlow.le, hhigh.le⟩
  · exact ⟨hlow, hhigh⟩

theorem holds_onGrid {n : Neighbourhood} {k : Int} {d : Nat} (h : n.onGrid? k = some d) :
    n.holds d k = true := by
  unfold onGrid? at h
  dsimp only at h
  split at h
  · cases h
  · next h1 _ =>
    cases h
    exact h1
  · next _ h2 =>
    cases h
    exact h2
  · next h1 h2 =>
    split at h <;> cases h
    · exact h1
    · exact h2

/-- One of the two neighbours of the value on the grid is enough. -/
theorem onGrid?_isSome {n : Neighbourhood} {k : Int}
    (h : let d := n.value * tenPow (-k).toNat / (n.den * tenPow k.toNat)
      n.holds d k = true ∨ n.holds (d + 1) k = true) : (n.onGrid? k).isSome = true := by
  unfold onGrid?
  dsimp only at h ⊢
  split
  · next h1 h2 =>
    rw [h1, h2] at h
    simp at h
  · rfl
  · rfl
  · rfl

/-- The search ends at a grid that meets the neighbourhood, if there is one in reach. -/
theorem holds_coarsest {n : Neighbourhood} {places : Nat} {k : Int} (j : Nat) (hj : j < places)
    (h : (n.onGrid? (k - j)).isSome = true) :
    n.holds (n.coarsest places k).1 (n.coarsest places k).2 = true := by
  induction places generalizing k j with
  | zero => omega
  | succ places ih =>
    rw [coarsest]
    cases hk : n.onGrid? k with
    | some d => exact holds_onGrid hk
    | none =>
      cases j with
      | zero => simp [hk] at h
      | succ j =>
        refine ih j (by omega) ?_
        rw [show k - 1 - j = k - (j + 1 : Nat) by omega]
        exact h

/-- The two neighbours of the value on a grid. -/
theorem grid_between {n : Neighbourhood} (hden : 0 < n.den) (k : Int) :
    let d := n.value * tenPow (-k).toNat / (n.den * tenPow k.toNat)
    (d : ℚ) * 10 ^ k ≤ n.value / n.den ∧ (n.value : ℚ) / n.den < (d + 1 : Nat) * 10 ^ k := by
  intro d
  have hpow : (0 : ℚ) < 10 ^ k := by positivity
  have hpos : 0 < n.den * tenPow k.toNat := Nat.mul_pos hden (Nat.pow_pos (by decide))
  have hpos' : (0 : ℚ) < (n.den * tenPow k.toNat : Nat) := by exact_mod_cast hpos
  have hratio : ((n.value * tenPow (-k).toNat : Nat) : ℚ) / (n.den * tenPow k.toNat : Nat) =
      n.value / n.den / 10 ^ k := by
    push_cast [cast_tenPow]
    exact ratio_scaled (by norm_num) k
  rw [← le_div_iff₀ hpow, ← div_lt_iff₀ hpow, ← hratio, le_div_iff₀ hpos', div_lt_iff₀ hpos']
  refine ⟨by exact_mod_cast Nat.div_mul_le_self _ _, ?_⟩
  have hlt : n.value * tenPow (-k).toNat < (d + 1) * (n.den * tenPow k.toNat) := by
    rw [Nat.mul_comm (d + 1)]
    exact Nat.lt_mul_div_succ _ hpos
  exact_mod_cast hlt

end Neighbourhood

/-- A number that the neighbourhood holds rounds to the number whose neighbourhood it is. -/
theorem roundsTo_of_holds {m d : Nat} {e k : Int} (hm : 0 < m)
    (h : (neighbourhood f m e).holds d k = true) : RoundsTo f m e (d * 10 ^ k) := by
  rw [Neighbourhood.holds_iff (neighbourhood_den_pos m e), neighbourhood_low hm,
    neighbourhood_high] at h
  split at h
  · next hclosed =>
    have heven : m % 2 = 0 := by simpa [neighbourhood] using hclosed
    exact ⟨h.1, h.2, by omega⟩
  · exact ⟨h.1.le, h.2.le, fun _ => h⟩

/-- Sixteen digits after the first one are finer than the last bit, as far as the significand is not
above the bound. -/
theorem grid_lt_of_digits {m bound part : ℚ} {k e : Int} (hk : (10 : ℚ) ^ (k + 16) ≤ m * 2 ^ e)
    (hm : m ≤ bound) (hbound : bound < part * 10 ^ 16) : (10 : ℚ) ^ k < part * 2 ^ e := by
  have hpow : (0 : ℚ) < 2 ^ e := by positivity
  have hsixteen : (10 : ℚ) ^ (k + 16) = 10 ^ 16 * 10 ^ k := by
    rw [zpow_add₀ (by norm_num), mul_comm]
    norm_num
  have hlt : (10 : ℚ) ^ 16 * 10 ^ k < 10 ^ 16 * (part * 2 ^ e) := by
    calc (10 : ℚ) ^ 16 * 10 ^ k ≤ m * 2 ^ e := hsixteen ▸ hk
      _ ≤ bound * 2 ^ e := by gcongr
      _ < part * 10 ^ 16 * 2 ^ e := by gcongr
      _ = 10 ^ 16 * (part * 2 ^ e) := by ring
  exact lt_of_mul_lt_mul_left hlt (by positivity)

/-- Sixteen digits after the first one are enough for a number of a narrow format. -/
theorem onGrid?_isSome_of_fine (hf : f.Narrow) {m : Nat} {e : Int}
    (hc : Canonical (finite false m e : Binary f)) (hm : 0 < m) {k : Int}
    (hk : (10 : ℚ) ^ (k + 16) ≤ m * 2 ^ e) : ((neighbourhood f m e).onGrid? k).isSome = true := by
  obtain _ | _ | ⟨_, hbelow, -, -, -⟩ := hc
  have hstep : (0 : ℚ) < 10 ^ k := by positivity
  have hden := neighbourhood_den_pos (f := f) m e
  obtain ⟨hd, hd'⟩ := Neighbourhood.grid_between hden k
  rw [neighbourhood_value] at hd hd'
  apply Neighbourhood.onGrid?_isSome
  generalize (neighbourhood f m e).value * tenPow (-k).toNat /
    ((neighbourhood f m e).den * tenPow k.toNat) = d at hd hd'
  push_cast at hd'
  have hholds {d : Nat} (hlow : (m - reach f m e) * 2 ^ e < d * 10 ^ k)
      (hhigh : (d : ℚ) * 10 ^ k < (m + 1 / 2) * 2 ^ e) :
      (neighbourhood f m e).holds d k = true :=
    Neighbourhood.holds_of_between hden (by rwa [neighbourhood_low hm])
      (by rwa [neighbourhood_high])
  unfold reach at hholds
  by_cases hpower : m = 2 ^ (f.precision - 1) ∧ f.minExponent < e
  · -- the grid is finer than half a unit, so the number above is near enough
    rw [if_pos hpower] at hholds
    have hle : (m : ℚ) ≤ 2 ^ 52 := by
      rw [hpower.1]
      exact_mod_cast Nat.pow_le_pow_right (by decide) (by have := hf.precision; omega)
    have hfine : (10 : ℚ) ^ k < 1 / 2 * 2 ^ e := grid_lt_of_digits hk hle (by norm_num)
    right
    apply hholds
    · push_cast
      linarith
    · push_cast
      linarith
  · -- the grid is finer than a unit, so the nearer one of both numbers is near enough
    rw [if_neg hpower] at hholds
    have hle : (m : ℚ) ≤ 2 ^ 53 := by
      exact_mod_cast hbelow.le.trans (Nat.pow_le_pow_right (by decide) hf.precision)
    have hfine : (10 : ℚ) ^ k < 1 * 2 ^ e := grid_lt_of_digits hk hle (by norm_num)
    by_cases hnear : (m : ℚ) * 2 ^ e - d * 10 ^ k < 1 / 2 * 2 ^ e
    · left
      apply hholds <;> linarith
    · right
      apply hholds
      · push_cast
        linarith
      · push_cast
        linarith

/-- The digits that a number is written with round to the number. -/
theorem shortest_rounds (hf : f.Narrow) {m : Nat} {e : Int}
    (hc : Canonical (finite false m e : Binary f)) (hm : 0 < m) :
    RoundsTo f m e ((shortest f m e).1 * 10 ^ (shortest f m e).2) := by
  apply roundsTo_of_holds hm
  have hvalue : 0 < (neighbourhood f m e).value := by
    simp only [neighbourhood, twoPow_eq]
    positivity
  have hexponent := (decimalExponent_bounds hvalue (neighbourhood_den_pos (f := f) m e)).1
  rw [neighbourhood_value] at hexponent
  refine Neighbourhood.holds_coarsest 17 (by decide) (onGrid?_isSome_of_fine hf hc hm ?_)
  refine le_trans (le_of_eq ?_) hexponent
  congr 1
  omega

end Binary

end ExprLang
