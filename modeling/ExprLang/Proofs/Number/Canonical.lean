import ExprLang.Proofs.Number.ShortestDigits

/-! Every rounding gives a number as its format stores it, and such a number of a narrow format
comes back from a double. -/

namespace ExprLang

/-- A format with significands that reaches above one. -/
structure FloatFormat.Proper (f : FloatFormat) : Prop where
  precision : 0 < f.precision
  maxExponent : 0 < f.maxExponent

theorem FloatFormat.proper_single : FloatFormat.single.Proper := ⟨by decide, by decide⟩

namespace Binary
variable {f g : FloatFormat}

/-! ## Roundings -/

theorem divideEven_le {num den n : Nat} (hden : 0 < den) (h : num ≤ n * den) :
    divideEven num den ≤ n := by
  have hq : num / den ≤ n := Nat.div_le_of_le_mul (by rwa [Nat.mul_comm])
  have hsplit := Nat.div_add_mod num den
  have hrest : num % den = 0 ∨ num / den + 1 ≤ n := by
    rcases Nat.eq_or_lt_of_le hq with hn | hn
    · left
      rw [hn, Nat.mul_comm] at hsplit
      omega
    · exact .inr hn
  unfold divideEven
  dsimp only
  split
  · exact hq
  · split
    · omega
    · split <;> omega

theorem le_divideEven {num den n : Nat} (hden : 0 < den) (h : n * den ≤ num) :
    n ≤ divideEven num den := by
  have hq : n ≤ num / den := (Nat.le_div_iff_mul_le hden).mpr h
  unfold divideEven
  dsimp only
  split
  · exact hq
  · split
    · omega
    · split <;> omega

section Scaled
variable {num den n : Nat} {e : Int}

theorem scaled_ratio (num den : Nat) (e : Int) :
    ((num * twoPow (-e).toNat : Nat) : ℚ) / (den * twoPow e.toNat : Nat) = num / den / 2 ^ e := by
  rw [Nat.cast_mul, Nat.cast_mul, cast_twoPow, cast_twoPow]
  exact ratio_scaled two_ne_zero e

theorem scaled_pos (hden : 0 < den) (e : Int) : 0 < den * twoPow e.toNat :=
  Nat.mul_pos hden (Nat.two_pow_pos _)

theorem divideEven_scaled_le (hden : 0 < den) (h : (num : ℚ) / den ≤ n * 2 ^ e) :
    divideEven (num * twoPow (-e).toNat) (den * twoPow e.toNat) ≤ n := by
  have hpos : (0 : ℚ) < (den * twoPow e.toNat : Nat) := by exact_mod_cast scaled_pos hden e
  refine divideEven_le (scaled_pos hden e) ?_
  have hle : ((num * twoPow (-e).toNat : Nat) : ℚ) / (den * twoPow e.toNat : Nat) ≤ n := by
    rwa [scaled_ratio, div_le_iff₀ (by positivity)]
  rw [div_le_iff₀ hpos] at hle
  exact_mod_cast hle

theorem le_divideEven_scaled (hden : 0 < den) (h : (n : ℚ) * 2 ^ e ≤ num / den) :
    n ≤ divideEven (num * twoPow (-e).toNat) (den * twoPow e.toNat) := by
  have hpos : (0 : ℚ) < (den * twoPow e.toNat : Nat) := by exact_mod_cast scaled_pos hden e
  refine le_divideEven (scaled_pos hden e) ?_
  have hle : (n : ℚ) ≤ ((num * twoPow (-e).toNat : Nat) : ℚ) / (den * twoPow e.toNat : Nat) := by
    rwa [scaled_ratio, le_div_iff₀ (by positivity)]
  rw [le_div_iff₀ hpos] at hle
  exact_mod_cast hle

end Scaled

theorem canonical_zero (hf : f.Proper) (s : Bool) : Canonical (zero s : Binary f) := by
  have hp := hf.precision
  have hmax := hf.maxExponent
  refine .finite s (Nat.two_pow_pos _) (.inr rfl) le_rfl ?_
  unfold FloatFormat.minExponent
  omega

/-- One rounding at the exponent of the leading bit, or at the least one, keeps the significand
within the format or carries it to the next power of two. -/
theorem canonical_ofRatio (hf : f.Proper) (s : Bool) (num : Nat) {den : Nat} (hden : 0 < den) :
    Canonical (ofRatio s num den : Binary f) := by
  have hp := hf.precision
  unfold ofRatio
  split
  · exact canonical_zero hf s
  · next hnum =>
    obtain ⟨hlow, hhigh⟩ := ratioExponent_bounds (Nat.pos_of_ne_zero hnum) hden
    dsimp only
    generalize hexp : max (ratioExponent num den - ((f.precision : Int) - 1)) f.minExponent = e
    have hle : divideEven (num * twoPow (-e).toNat) (den * twoPow e.toNat) ≤ 2 ^ f.precision := by
      refine divideEven_scaled_le hden (hhigh.le.trans ?_)
      rw [Nat.cast_pow, Nat.cast_ofNat, ← zpow_natCast, ← two_zpow_add]
      exact zpow_le_zpow_right₀ one_le_two (by omega)
    have hfull : 2 ^ (f.precision - 1) ≤
        divideEven (num * twoPow (-e).toNat) (den * twoPow e.toNat) ∨ e = f.minExponent := by
      by_cases he : e = f.minExponent
      · exact .inr he
      · refine .inl (le_divideEven_scaled hden (le_trans ?_ hlow))
        rw [Nat.cast_pow, Nat.cast_ofNat, ← two_zpow_pred hp, ← two_zpow_add]
        exact zpow_le_zpow_right₀ one_le_two (by omega)
    have hleast : f.minExponent ≤ e := by omega
    generalize divideEven (num * twoPow (-e).toNat) (den * twoPow e.toNat) = q at hle hfull
    rw [twoPow_eq, twoPow_eq]
    by_cases hq : q = 2 ^ f.precision
    · simp only [if_pos hq]
      split
      · exact .infinite s
      · next hmost =>
        refine .finite s ?_ (.inl le_rfl) (by omega) (by omega)
        exact Nat.pow_lt_pow_right (by decide) (by omega)
    · simp only [if_neg hq]
      split
      · exact .infinite s
      · next hmost => exact .finite s (by omega) hfull hleast (by omega)

theorem canonical_ofScaled (hf : f.Proper) (s : Bool) (m : Nat) (e : Int) :
    Canonical (ofScaled s m e : Binary f) :=
  canonical_ofRatio hf s _ (Nat.two_pow_pos _)

theorem canonical_convert (hf : f.Proper) (x : Binary g) : Canonical (x.convert : Binary f) := by
  cases x with
  | nan => exact .nan
  | infinite s => exact .infinite s
  | finite s m e => exact canonical_ofScaled hf s m e

theorem canonical_ofDigits (hf : f.Proper) (s : Bool) (digits : List Char) (e : Int) :
    Canonical (ofDigits s digits e : Binary f) := by
  unfold ofDigits
  dsimp only
  split
  · exact canonical_zero hf s
  · split
    · exact .infinite s
    · split
      · exact canonical_zero hf s
      · exact canonical_ofRatio hf s _ (Nat.pow_pos (by decide))

theorem canonical_ofWord? {s : Bool} {cs : List Char} {x : Binary f}
    (hx : ofWord? s cs = some x) : x.Canonical := by
  unfold ofWord? at hx
  dsimp only at hx
  split at hx
  · cases hx
    exact .infinite s
  · split at hx
    · cases hx
      exact .nan
    · cases hx

theorem canonical_ofUnsigned? (hf : f.Proper) {s : Bool} {cs : List Char} {x : Binary f}
    (hx : ofUnsigned? s cs = some x) : x.Canonical := by
  unfold ofUnsigned? at hx
  split at hx
  next fraction after _ =>
    dsimp only at hx
    split at hx
    · cases hx
    · obtain ⟨e, -, rfl⟩ := Option.map_eq_some_iff.mp hx
      exact canonical_ofDigits hf s _ _

theorem canonical_ofText (hf : f.Proper) {t : String} {x : Binary f} (hx : ofText t = .ok x) :
    x.Canonical := by
  unfold ofText at hx
  split at hx
  · cases hx
  · dsimp only at hx
    cases hword : (ofWord? (splitSign t.toList).1 (splitSign t.toList).2 : Option (Binary f)) with
    | some y =>
      rw [hword] at hx
      cases hx
      exact canonical_ofWord? hword
    | none =>
      rw [hword] at hx
      cases hnumber : (ofUnsigned? (splitSign t.toList).1 (splitSign t.toList).2 :
          Option (Binary f)) with
      | some y =>
        rw [hnumber] at hx
        cases hx
        exact canonical_ofUnsigned? hf hnumber
      | none =>
        rw [hnumber] at hx
        cases hx

/-! ## Exact numbers -/

theorem RoundsTo.exact (f : FloatFormat) (m : Nat) (e : Int) : RoundsTo f m e (m * 2 ^ e) := by
  have hreach : 0 < reach f m e := by
    unfold reach
    split <;> norm_num
  have hpow : (0 : ℚ) < 2 ^ e := by positivity
  have hlow : (m - reach f m e) * 2 ^ e < m * 2 ^ e := by
    gcongr
    linarith
  have hhigh : (m : ℚ) * 2 ^ e < (m + 1 / 2) * 2 ^ e := by
    gcongr
    linarith
  exact ⟨hlow.le, hhigh.le, fun _ => ⟨hlow, hhigh⟩⟩

/-- A number of the format, however it is scaled. -/
theorem ofScaled_eq {s : Bool} {m n : Nat} {d e : Int} (hc : Canonical (finite s m e : Binary f))
    (hm : 0 < m) (h : (n : ℚ) * 2 ^ d = m * 2 ^ e) :
    (ofScaled s n d : Binary f) = finite s m e := by
  refine ofRatio_eq hc hm (Nat.two_pow_pos _) ?_
  have hratio : ((n * twoPow d.toNat : Nat) : ℚ) / (twoPow (-d).toNat : Nat) = m * 2 ^ e := by
    rw [Nat.cast_mul, cast_twoPow, cast_twoPow, mul_div_assoc, pow_toNat_div, h]
  rw [hratio]
  exact .exact f m e

/-- A number of a narrow format as a double. -/
theorem exists_double (hf : f.Narrow) {s : Bool} {m : Nat} {e : Int}
    (hc : Canonical (finite s m e : Binary f)) (hm : 0 < m) :
    ∃ n d, Canonical (finite s n d : Double) ∧ 0 < n ∧ (n : ℚ) * 2 ^ d = m * 2 ^ e := by
  obtain _ | _ | ⟨_, hbelow, -, hleast, hmost⟩ := hc
  have hleast' := hf.least
  have hmost' := hf.most
  have hlow := Nat.log2_self_le hm.ne'
  have hhigh := Nat.lt_log2_self (n := m)
  have hbits : m.log2 < f.precision := (Nat.log2_lt hm.ne').mpr hbelow
  have hprecision := hf.precision
  -- all bits of the wide significand, as far as its least exponent allows
  obtain ⟨k, hk⟩ : ∃ k : Nat, (k : Int) = e - max (e - (52 - m.log2)) (-1074) :=
    Int.eq_ofNat_of_zero_le (by omega) |>.imp fun _ h => h.symm
  refine ⟨m * 2 ^ k, e - k, .finite s ?_ ?_ ?_ ?_, Nat.mul_pos hm (Nat.two_pow_pos k), ?_⟩
  · calc m * 2 ^ k < 2 ^ (m.log2 + 1) * 2 ^ k := Nat.mul_lt_mul_of_pos_right hhigh (Nat.two_pow_pos k)
      _ = 2 ^ (m.log2 + 1 + k) := (pow_add _ _ _).symm
      _ ≤ 2 ^ FloatFormat.double.precision :=
        Nat.pow_le_pow_right (by decide) (show m.log2 + 1 + k ≤ 53 by omega)
  · by_cases hd : e - (52 - (m.log2 : Int)) < -1074
    · exact .inr (show e - k = -1074 by omega)
    · left
      calc 2 ^ (FloatFormat.double.precision - 1) = 2 ^ (m.log2 + k) :=
          congrArg (2 ^ ·) (show 52 = m.log2 + k by omega)
        _ = 2 ^ m.log2 * 2 ^ k := pow_add _ _ _
        _ ≤ m * 2 ^ k := Nat.mul_le_mul_right _ hlow
  · exact show -1074 ≤ e - (k : Int) by omega
  · exact show e - (k : Int) + 53 - 1 ≤ 1023 by omega
  · rw [Nat.cast_mul, Nat.cast_pow, Nat.cast_ofNat, mul_assoc, ← zpow_natCast, ← two_zpow_add]
    congr 2
    omega

/-- A number of a narrow format is the same one as a double. -/
theorem convert_convert (hf : f.Narrow) {x : Binary f} (hx : x.Canonical) :
    ((x.convert : Double).convert : Binary f) = x := by
  cases hx with
  | nan => rfl
  | infinite s => rfl
  | @finite s m e hbelow hfull hleast hmost =>
    rcases Nat.eq_zero_or_pos m with rfl | hm
    · obtain rfl : e = f.minExponent := hfull.resolve_left (by simp)
      simp [convert, ofScaled, ofRatio, zero]
    · have hc : Canonical (finite s m e : Binary f) := .finite s hbelow hfull hleast hmost
      obtain ⟨n, d, hwide, hn, heq⟩ := exists_double hf hc hm
      calc ((finite s m e : Binary f).convert : Double).convert
        _ = (finite s n d : Double).convert := congrArg convert (ofScaled_eq hwide hn heq.symm)
        _ = finite s m e := ofScaled_eq hc hm heq

end Binary

end ExprLang
