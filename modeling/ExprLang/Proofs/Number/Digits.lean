import ExprLang.Number.Decimal
import Mathlib.Tactic.Linarith
import Mathlib.Tactic.NormNum
import Mathlib.Tactic.Ring

/-! Decimal digits: the text of an integer reads back as the integer. -/

namespace ExprLang

namespace Binary

theorem isDecimalDigit_iff {c : Char} : isDecimalDigit c = true ↔ c.isDigit = true := by
  simp [isDecimalDigit, Char.isDigit, Char.le_def]

theorem zero_le_of_isDecimalDigit {c : Char} (hc : isDecimalDigit c = true) :
    '0'.toNat ≤ c.toNat := by
  have hdigit := isDecimalDigit_iff.mp hc
  simp only [Char.isDigit, Bool.and_eq_true, decide_eq_true_eq] at hdigit
  exact hdigit.1

/-- A character that is a digit is none that is not. -/
theorem ne_of_isDecimalDigit {c d : Char} (hc : isDecimalDigit c = true)
    (hd : isDecimalDigit d = false) : c ≠ d := by
  rintro rfl
  rw [hc] at hd
  cases hd

theorem isDecimalDigit_toDigits {n : Nat} {c : Char} (hc : c ∈ Nat.toDigits 10 n) :
    isDecimalDigit c = true :=
  isDecimalDigit_iff.mpr (Nat.isDigit_of_mem_toDigits (by decide) (by decide) hc)

theorem all_isDecimalDigit_toDigits (n : Nat) : (Nat.toDigits 10 n).all isDecimalDigit = true :=
  List.all_eq_true.mpr fun _ hc => isDecimalDigit_toDigits hc

@[simp] theorem digitsValue_nil : digitsValue [] = 0 := rfl

theorem digitsValue_eq (cs : List Char) : digitsValue cs = Nat.ofDigitChars 10 cs 0 := rfl

@[simp] theorem digitsValue_toDigits (n : Nat) : digitsValue (Nat.toDigits 10 n) = n :=
  Nat.ofDigitChars_ten_toDigits

theorem digitsValue_append (cs ds : List Char) :
    digitsValue (cs ++ ds) = 10 ^ ds.length * digitsValue cs + digitsValue ds := by
  simp only [digitsValue_eq]
  rw [Nat.ofDigitChars_append, Nat.ofDigitChars_eq_ofDigitChars_zero]

theorem digitsValue_cons (c : Char) (cs : List Char) :
    digitsValue (c :: cs) = 10 ^ cs.length * (c.toNat - '0'.toNat) + digitsValue cs := by
  have hsingle : digitsValue [c] = c.toNat - '0'.toNat := by simp [digitsValue]
  rw [← List.singleton_append, digitsValue_append, hsingle]

@[simp] theorem digitsValue_replicate_zero (n : Nat) :
    digitsValue (List.replicate n '0') = 0 := by
  rw [digitsValue_eq, Nat.ofDigitChars_replicate_zero, Nat.mul_zero]

end Binary

open Binary (isDecimalDigit digitsValue)

/-- The text of an integer is a sign, if it is negative, and its digits. -/
theorem toList_toString_int (n : Int) :
    (toString n).toList =
      if 0 ≤ n then Nat.toDigits 10 n.toNat else '-' :: Nat.toDigits 10 (-n).toNat := by
  rw [Int.toString_eq_repr, Int.repr_eq_if]
  split <;> simp

/-- A number with digits has a first one. -/
theorem toDigits_eq_cons (n : Nat) :
    ∃ c cs, Nat.toDigits 10 n = c :: cs ∧ isDecimalDigit c = true := by
  cases h : Nat.toDigits 10 n with
  | nil => exact absurd h Nat.toDigits_ne_nil
  | cons c cs =>
    exact ⟨c, cs, rfl, Binary.isDecimalDigit_toDigits (h ▸ List.mem_cons_self)⟩

/-- The number of digits is that of the first power of ten above the number. -/
theorem toDigits_bounds {n : Nat} (hn : 0 < n) :
    10 ^ ((Nat.toDigits 10 n).length - 1) ≤ n ∧ n < 10 ^ (Nat.toDigits 10 n).length := by
  have hpos : 0 < (Nat.toDigits 10 n).length := Nat.length_toDigits_pos
  refine ⟨?_, (Nat.length_toDigits_le_iff (by decide) hpos).mp le_rfl⟩
  rcases Nat.eq_or_lt_of_le (Nat.succ_le_of_lt hpos) with h1 | h1
  · rw [← h1]
    exact hn
  · by_contra hlt
    have := (Nat.length_toDigits_le_iff (by decide) (by omega)).mpr (not_le.mp hlt)
    omega

namespace IntegerText

/-- A number with a sign. -/
def signed (negative : Bool) (n : Nat) : Int := if negative then -n else n

/-- A range that holds zero holds all numbers up to one that it holds. -/
theorem signed_between {low high : Int} {negative : Bool} {m n : Nat} (hlow : low ≤ 0)
    (hhigh : 0 ≤ high) (hle : m ≤ n) (hl : low ≤ signed negative n) (hh : signed negative n ≤ high) :
    low ≤ signed negative m ∧ signed negative m ≤ high := by
  cases negative <;> simp only [signed, if_true, Bool.false_eq_true, if_false] at hl hh ⊢ <;> omega

/-- Digits count on as long as the number that they lead to is in range. -/
theorem readDigits_eq {low high : Int} (negative : Bool) (hlow : low ≤ 0) (hhigh : 0 ≤ high)
    {cs : List Char} (hcs : ∀ c ∈ cs, isDecimalDigit c = true) (n : Nat)
    (hl : low ≤ signed negative (10 ^ cs.length * n + digitsValue cs))
    (hh : signed negative (10 ^ cs.length * n + digitsValue cs) ≤ high) :
    readDigits low high negative (signed negative n) cs =
      .ok (signed negative (10 ^ cs.length * n + digitsValue cs)) := by
  induction cs generalizing n with
  | nil => simp [readDigits]
  | cons c cs ih =>
    have hc := hcs c List.mem_cons_self
    have hvalue : 10 ^ (c :: cs).length * n + digitsValue (c :: cs) =
        10 ^ cs.length * (10 * n + (c.toNat - '0'.toNat)) + digitsValue cs := by
      rw [Binary.digitsValue_cons, List.length_cons]
      ring
    rw [hvalue] at hl hh ⊢
    have hzero := Binary.zero_le_of_isDecimalDigit hc
    have hnext : (if negative then 10 * signed negative n - ((c.toNat : Int) - '0'.toNat)
        else 10 * signed negative n + ((c.toNat : Int) - '0'.toNat)) =
          signed negative (10 * n + (c.toNat - '0'.toNat)) := by
      unfold signed
      split <;> omega
    have hle : 10 * n + (c.toNat - '0'.toNat) ≤
        10 ^ cs.length * (10 * n + (c.toNat - '0'.toNat)) + digitsValue cs :=
      le_add_right (Nat.le_mul_of_pos_left _ (by positivity))
    obtain ⟨hl', hh'⟩ := signed_between hlow hhigh hle hl hh
    rw [readDigits]
    simp only [hc, Bool.not_true, Bool.false_eq_true, if_false, hnext]
    rw [if_neg (by omega), if_neg (by omega)]
    exact ih (fun d hd => hcs d (List.mem_cons_of_mem c hd)) _ hl hh

/-- The digits of a number are read as the number. -/
theorem readDigits_toDigits {low high : Int} (negative : Bool) (hlow : low ≤ 0)
    (hhigh : 0 ≤ high) {n : Nat} (hl : low ≤ signed negative n) (hh : signed negative n ≤ high) :
    readDigits low high negative 0 (Nat.toDigits 10 n) = .ok (signed negative n) := by
  have hvalue : 10 ^ (Nat.toDigits 10 n).length * 0 + digitsValue (Nat.toDigits 10 n) = n := by
    rw [Binary.digitsValue_toDigits, Nat.mul_zero, Nat.zero_add]
  have hread := readDigits_eq negative hlow hhigh
    (fun c hc => Binary.isDecimalDigit_toDigits (n := n) hc) 0 (by rwa [hvalue]) (by rwa [hvalue])
  rw [hvalue] at hread
  have hzero : signed negative 0 = 0 := by cases negative <;> rfl
  rwa [hzero] at hread

/-- Digits that lead to a number above the range are refused. -/
theorem readDigits_tooLarge {low high : Int} (hlow : low ≤ 0) {cs : List Char}
    (hcs : ∀ c ∈ cs, isDecimalDigit c = true) {n : Nat} (hn : (n : Int) ≤ high)
    (h : high < (10 ^ cs.length * n + digitsValue cs : Nat)) :
    readDigits low high false n cs = .error .tooLarge := by
  induction cs generalizing n with
  | nil =>
    simp only [List.length_nil, pow_zero, one_mul, Binary.digitsValue_nil, add_zero] at h
    omega
  | cons c cs ih =>
    have hc := hcs c List.mem_cons_self
    have hvalue : 10 ^ (c :: cs).length * n + digitsValue (c :: cs) =
        10 ^ cs.length * (10 * n + (c.toNat - '0'.toNat)) + digitsValue cs := by
      rw [Binary.digitsValue_cons, List.length_cons]
      ring
    rw [hvalue] at h
    have hnext : 10 * (n : Int) + ((c.toNat : Int) - '0'.toNat) =
        (10 * n + (c.toNat - '0'.toNat) : Nat) := by
      have hzero := Binary.zero_le_of_isDecimalDigit hc
      omega
    rw [readDigits]
    simp only [hc, Bool.not_true, Bool.false_eq_true, if_false, hnext]
    rw [if_neg (by omega)]
    split
    · rfl
    · exact ih (fun d hd => hcs d (List.mem_cons_of_mem c hd)) (by omega) h

/-- An integer in range reads back from its text. -/
theorem bounded_toString {low high n : Int} (hlow : low ≤ 0) (hhigh : 0 ≤ high) (hl : low ≤ n)
    (hh : n ≤ high) : bounded low high (toString n) = .ok n := by
  unfold bounded
  rw [toList_toString_int]
  by_cases hn : 0 ≤ n
  · obtain ⟨c, cs, hcs, hc⟩ := toDigits_eq_cons n.toNat
    have hsigned : signed false n.toNat = n := by
      simp only [signed, Bool.false_eq_true, if_false]
      omega
    have hread := readDigits_toDigits false hlow hhigh
      (by rwa [hsigned]) (by rwa [hsigned])
    have hminus : c ≠ '-' := Binary.ne_of_isDecimalDigit hc rfl
    have hplus : c ≠ '+' := Binary.ne_of_isDecimalDigit hc rfl
    rw [hsigned, hcs] at hread
    rw [if_pos hn, hcs]
    simpa [hminus, hplus] using hread
  · obtain ⟨c, cs, hcs, hc⟩ := toDigits_eq_cons (-n).toNat
    have hsigned : signed true (-n).toNat = n := by
      simp only [signed, if_true]
      omega
    have hread := readDigits_toDigits true hlow hhigh
      (by rwa [hsigned]) (by rwa [hsigned])
    rw [hsigned, hcs] at hread
    rw [if_neg hn, hcs]
    exact hread

/-- Digits are read as the number that they write. -/
theorem natural_digits {c : Char} {cs : List Char} (h : ∀ d ∈ c :: cs, isDecimalDigit d = true) :
    natural (c :: cs) = .ok (digitsValue (c :: cs)) := by
  have hmark : ∀ d ∈ c :: cs, d ≠ '_' := fun d hd => Binary.ne_of_isDecimalDigit (h d hd) rfl
  have hall : (c :: cs).all (fun d => d == '_' || isDecimalDigit d) = true := by
    rw [List.all_eq_true]
    intro d hd
    rw [h d hd, Bool.or_true]
  have hfilter : (c :: cs).filter (· != '_') = c :: cs := by
    rw [List.filter_eq_self]
    intro d hd
    exact bne_iff_ne.mpr (hmark d hd)
  unfold natural
  dsimp only
  rw [hall, hfilter]
  simp [hmark c List.mem_cons_self]

theorem natural_toDigits (n : Nat) : natural (Nat.toDigits 10 n) = .ok n := by
  obtain ⟨c, cs, hcs, -⟩ := toDigits_eq_cons n
  have hdigits : ∀ d ∈ c :: cs, isDecimalDigit d = true := fun d hd =>
    Binary.isDecimalDigit_toDigits (hcs ▸ hd)
  rw [hcs, natural_digits hdigits, ← hcs, Binary.digitsValue_toDigits]

theorem unboundedChars_digits {c : Char} {cs : List Char}
    (h : ∀ d ∈ c :: cs, isDecimalDigit d = true) :
    unboundedChars (c :: cs) = .ok (digitsValue (c :: cs)) := by
  have hc := h c List.mem_cons_self
  unfold unboundedChars
  split
  · next hminus => exact absurd (List.cons.inj hminus).1 (Binary.ne_of_isDecimalDigit hc rfl)
  · next hplus => exact absurd (List.cons.inj hplus).1 (Binary.ne_of_isDecimalDigit hc rfl)
  · rw [natural_digits h]
    rfl

/-- An integer of any size reads back from its text. -/
theorem unbounded_toString (n : Int) : unbounded (toString n) = .ok n := by
  unfold unbounded
  rw [toList_toString_int]
  by_cases hn : 0 ≤ n
  · obtain ⟨c, cs, hcs, -⟩ := toDigits_eq_cons n.toNat
    have hdigits : ∀ d ∈ c :: cs, isDecimalDigit d = true := fun d hd =>
      Binary.isDecimalDigit_toDigits (hcs ▸ hd)
    rw [if_pos hn, hcs, unboundedChars_digits hdigits, ← hcs, Binary.digitsValue_toDigits]
    exact congrArg Except.ok (Int.toNat_of_nonneg hn)
  · rw [if_neg hn, unboundedChars, natural_toDigits]
    have hneg : -((-n).toNat : Int) = n := by omega
    exact congrArg Except.ok hneg

/-- An integer of a fixed width reads back from its text. -/
theorem ofWidth_toString {bits : Nat} {n : Int} (hl : -2 ^ (bits - 1) ≤ n) (hh : n < 2 ^ (bits - 1)) :
    ofWidth bits (toString n) = .ok n := by
  have hpos : (0 : Int) < 2 ^ (bits - 1) := by positivity
  have hpow : ((twoPow (bits - 1) : Nat) : Int) = 2 ^ (bits - 1) := by
    simp only [twoPow, Nat.pow_eq, Nat.cast_pow, Nat.cast_ofNat]
  unfold ofWidth
  rw [hpow]
  exact bounded_toString (by omega) (by omega) hl (by omega)

/-- A number beyond a fixed width is refused. -/
theorem ofWidth_tooLarge {bits n : Nat} (h : 2 ^ (bits - 1) ≤ n) :
    ofWidth bits (toString (n : Int)) = .error .tooLarge := by
  have hpos : 0 < 2 ^ (bits - 1) := by positivity
  have hpow : twoPow (bits - 1) = 2 ^ (bits - 1) := by simp only [twoPow, Nat.pow_eq]
  obtain ⟨c, cs, hcs, hc⟩ := toDigits_eq_cons n
  have hminus : c ≠ '-' := Binary.ne_of_isDecimalDigit hc rfl
  have hplus : c ≠ '+' := Binary.ne_of_isDecimalDigit hc rfl
  have hvalue : 10 ^ (c :: cs).length * 0 + digitsValue (c :: cs) = n := by
    rw [← hcs, Binary.digitsValue_toDigits, Nat.mul_zero, Nat.zero_add]
  have hread : readDigits (-(2 ^ (bits - 1) : Nat)) ((2 ^ (bits - 1) : Nat) - 1) false (0 : Nat)
      (c :: cs) = .error .tooLarge := by
    refine readDigits_tooLarge (by omega) ?_ (by omega) (by rw [hvalue]; omega)
    exact fun d hd => Binary.isDecimalDigit_toDigits (hcs ▸ hd)
  unfold ofWidth bounded
  rw [toList_toString_int, if_pos (Int.natCast_nonneg n), Int.toNat_natCast, hcs, hpow]
  simpa [hminus, hplus] using hread

end IntegerText

end ExprLang
