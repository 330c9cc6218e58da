import ExprLang.Proofs.Number.ShortestDigits

/-! A floating point number reads back from its text. -/

namespace ExprLang

namespace Binary
variable {f : FloatFormat}

/-! ## Digits -/

theorem digitsValue_dropZeros (cs : List Char) :
    digitsValue (cs.dropWhile (· == '0')) = digitsValue cs := by
  induction cs with
  | nil => rfl
  | cons c cs ih =>
    rw [List.dropWhile_cons]
    split
    · next hc =>
      rw [beq_iff_eq] at hc
      subst hc
      rw [ih, digitsValue_cons]
      simp
    · rfl

theorem digitsValue_lt {cs : List Char} (hcs : ∀ c ∈ cs, isDecimalDigit c = true) :
    digitsValue cs < 10 ^ cs.length := by
  induction cs with
  | nil => simp
  | cons c cs ih =>
    have hc : c.toNat - '0'.toNat ≤ 9 := by
      have := isDecimalDigit_iff.mp (hcs c List.mem_cons_self)
      simp only [Char.isDigit, Bool.and_eq_true, decide_eq_true_eq] at this
      have hle : c.toNat ≤ 57 := this.2
      have hzero : '0'.toNat = 48 := rfl
      omega
    have hrest := ih fun d hd => hcs d (List.mem_cons_of_mem c hd)
    rw [digitsValue_cons, List.length_cons, pow_succ]
    have := Nat.mul_le_mul_left (10 ^ cs.length) hc
    omega

/-- A digit that is not zero in front makes a number as large as its digits allow. -/
theorem pow_le_digitsValue {c : Char} {cs : List Char} (hc : isDecimalDigit c = true)
    (hne : c ≠ '0') : 10 ^ cs.length ≤ digitsValue (c :: cs) := by
  have hpos : 0 < c.toNat - '0'.toNat := by
    have := isDecimalDigit_iff.mp hc
    simp only [Char.isDigit, Bool.and_eq_true, decide_eq_true_eq] at this
    have hge : 48 ≤ c.toNat := this.1
    have hzero : '0'.toNat = 48 := rfl
    have hneq : c.toNat ≠ 48 := fun h => hne (Char.toNat_inj.mp h)
    omega
  rw [digitsValue_cons]
  have := Nat.le_mul_of_pos_right (10 ^ cs.length) hpos
  omega

theorem two_pow_lt_ten_pow : (2 : ℚ) ^ 1075 < 10 ^ 400 :=
  calc (2 : ℚ) ^ 1075 < 2 ^ (3 * 400) := pow_lt_pow_right₀ one_lt_two (by decide)
    _ = (2 ^ 3) ^ 400 := pow_mul 2 3 400
    _ ≤ 10 ^ 400 := pow_le_pow_left₀ (by norm_num) (by norm_num) 400

/-- What rounds to a number of a narrow format has its first digit within four hundred places of the
point. -/
theorem RoundsTo.first_place (hf : f.Narrow) {s : Bool} {m : Nat} {e : Int}
    (hc : Canonical (finite s m e : Binary f)) (hm : 0 < m) {x : ℚ} (h : RoundsTo f m e x) {k : Int}
    (hlow : 10 ^ k ≤ x) (hhigh : x < 10 ^ (k + 1)) : k + 1 ≤ placeLimit ∧ -placeLimit ≤ k + 1 := by
  obtain _ | _ | ⟨_, hbelow, -, hleast, hmost⟩ := hc
  have hpow : (0 : ℚ) < 2 ^ e := by positivity
  have hreach := reach_le (f := f) m e
  have htop : x < 2 ^ 1075 := by
    have hm1 : (m : ℚ) + 1 ≤ 2 ^ f.precision := by exact_mod_cast hbelow
    calc x ≤ (m + 1 / 2) * 2 ^ e := h.high
      _ < 2 ^ f.precision * 2 ^ e := mul_lt_mul_of_pos_right (by linarith) hpow
      _ = 2 ^ (f.precision + e) := by rw [zpow_add₀ two_ne_zero, zpow_natCast]
      _ ≤ 2 ^ (1075 : Int) := zpow_le_zpow_right₀ one_le_two (by have := hf.most; omega)
      _ = 2 ^ 1075 := zpow_natCast 2 1075
  have hbottom : (2 : ℚ) ^ (-1075 : Int) ≤ x := by
    have hmq : (1 : ℚ) ≤ m := by exact_mod_cast hm
    calc (2 : ℚ) ^ (-1075 : Int) = 1 / 2 * 2 ^ (-1074 : Int) := by
          rw [show (-1075 : Int) = -1 + -1074 by decide, zpow_add₀ two_ne_zero]
          norm_num
      _ ≤ 1 / 2 * 2 ^ e := by
        have := zpow_le_zpow_right₀ (one_le_two (α := ℚ)) (hf.least.trans hleast)
        linarith
      _ ≤ (m - reach f m e) * 2 ^ e := mul_le_mul_of_nonneg_right (by linarith) hpow.le
      _ ≤ x := h.low
  constructor
  · have hlt : (10 : ℚ) ^ k < 10 ^ placeLimit := by
      rw [show placeLimit = (400 : Nat) from rfl, zpow_natCast]
      exact lt_of_le_of_lt hlow (htop.trans two_pow_lt_ten_pow)
    exact (zpow_lt_zpow_iff_right₀ (by norm_num)).mp hlt
  · have hlt : (10 : ℚ) ^ (-placeLimit) < 10 ^ (k + 1) := by
      rw [show placeLimit = (400 : Nat) from rfl, zpow_neg, zpow_natCast]
      rw [show (-1075 : Int) = -(1075 : Nat) from rfl, zpow_neg, zpow_natCast] at hbottom
      exact lt_of_lt_of_le (inv_strictAnti₀ (by positivity) two_pow_lt_ten_pow)
        (hbottom.trans hhigh.le)
    exact ((zpow_lt_zpow_iff_right₀ (by norm_num)).mp hlt).le

/-- Digits that round to a number are read as the number. -/
theorem ofDigits_eq (hf : f.Narrow) {s : Bool} {m : Nat} {e : Int}
    (hc : Canonical (finite s m e : Binary f)) (hm : 0 < m) {digits : List Char} {exponent : Int}
    (hdigits : ∀ c ∈ digits, isDecimalDigit c = true)
    (h : RoundsTo f m e (digitsValue digits * 10 ^ exponent)) :
    (ofDigits s digits exponent : Binary f) = finite s m e := by
  have hx := h.pos hm
  have hvalue := digitsValue_dropZeros digits
  have hsignificant : ∀ c ∈ digits.dropWhile (· == '0'), isDecimalDigit c = true :=
    fun c hc => hdigits c (List.dropWhile_sublist _ |>.subset hc)
  have hfirst := List.head?_dropWhile_not (· == '0') digits
  unfold ofDigits
  dsimp only
  generalize digits.dropWhile (· == '0') = ds at hvalue hsignificant hfirst
  rw [← hvalue] at h hx
  cases ds with
  | nil => simp at hx
  | cons c cs =>
    have hne : c ≠ '0' := by simpa using hfirst
    have hpow : (0 : ℚ) < 10 ^ exponent := by positivity
    have hlow : ((10 : ℚ) ^ cs.length) ≤ digitsValue (c :: cs) := by
      exact_mod_cast pow_le_digitsValue (hsignificant c List.mem_cons_self) hne
    have hhigh : (digitsValue (c :: cs) : ℚ) < 10 ^ (cs.length + 1) := by
      exact_mod_cast digitsValue_lt hsignificant
    have hplace := h.first_place hf hc hm (k := cs.length + exponent)
      (by
        rw [zpow_add₀ (by norm_num), zpow_natCast]
        gcongr)
      (by
        rw [add_right_comm, zpow_add₀ (by norm_num)]
        exact mul_lt_mul_of_pos_right (by exact_mod_cast hhigh) hpow)
    rw [List.length_cons, if_neg (by simp), if_neg (by omega), if_neg (by omega)]
    have hden : 0 < tenPow (-exponent).toNat := Nat.pow_pos (by decide)
    unfold ofDecimal
    apply ofRatio_eq hc hm hden
    rw [Nat.cast_mul, cast_tenPow, cast_tenPow, mul_div_assoc, pow_toNat_div]
    exact h

/-! ## Numbers with a point -/

/-- A number with a point is read digit by digit, with the exponent that follows it. -/
theorem ofUnsigned?_eq {s : Bool} {whole fraction after : List Char} {e : Int}
    (hwhole : ∀ c ∈ whole, isDecimalDigit c = true) (hne : whole ≠ [])
    (hfraction : ∀ c ∈ fraction, isDecimalDigit c = true)
    (hafter : ∀ c ∈ after.head?, isDecimalDigit c = false) (he : exponentValue? after = some e) :
    (ofUnsigned? s (whole ++ '.' :: (fraction ++ after)) : Option (Binary f)) =
      some (ofDigits s (whole ++ fraction) (e - fraction.length)) := by
  have hpoint : isDecimalDigit '.' = false := rfl
  have hstop : after.takeWhile isDecimalDigit = [] ∧ after.dropWhile isDecimalDigit = after := by
    cases after with
    | nil => exact ⟨rfl, rfl⟩
    | cons c cs =>
      have := hafter c rfl
      simp [this]
  have htake : (whole ++ '.' :: (fraction ++ after)).takeWhile isDecimalDigit = whole := by
    rw [List.takeWhile_append_of_pos hwhole]
    simp [hpoint]
  have hdrop : (whole ++ '.' :: (fraction ++ after)).dropWhile isDecimalDigit =
      '.' :: (fraction ++ after) := by
    rw [List.dropWhile_append_of_pos hwhole]
    simp [hpoint]
  have htake' : (fraction ++ after).takeWhile isDecimalDigit = fraction := by
    rw [List.takeWhile_append_of_pos hfraction, hstop.1, List.append_nil]
  have hdrop' : (fraction ++ after).dropWhile isDecimalDigit = after := by
    rw [List.dropWhile_append_of_pos hfraction, hstop.2]
  unfold ofUnsigned?
  rw [htake, hdrop]
  simp only [htake', hdrop', he]
  simp [hne]

/-- A text has digits on both sides of a point, which make up a number. -/
def Pointed (s : String) (x : ℚ) : Prop :=
  ∃ whole fraction : List Char, s.toList = whole ++ '.' :: fraction ∧ whole ≠ [] ∧
    (∀ c ∈ whole, isDecimalDigit c = true) ∧ (∀ c ∈ fraction, isDecimalDigit c = true) ∧
    (digitsValue (whole ++ fraction) : ℚ) * 10 ^ (-fraction.length : Int) = x

theorem mem_replicate_digits {n : Nat} {c : Char} (hc : c ∈ List.replicate n '0') :
    isDecimalDigit c = true := by
  rw [List.eq_of_mem_replicate hc]
  rfl

theorem digitsValue_padded (digits : List Char) (n : Nat) :
    (digitsValue (digits ++ List.replicate n '0') : ℚ) = digitsValue digits * 10 ^ n := by
  rw [digitsValue_append, digitsValue_replicate_zero, List.length_replicate]
  push_cast
  ring

/-- Zeros between the point and the digits. -/
theorem pointed_zeros {digits : List Char} (hdigits : ∀ c ∈ digits, isDecimalDigit c = true)
    (n : Nat) :
    Pointed ("0." ++ String.ofList (List.replicate n '0' ++ digits))
      (digitsValue digits * 10 ^ (-(n + digits.length : Nat) : Int)) := by
  refine ⟨['0'], List.replicate n '0' ++ digits, ?_, by simp, ?_, ?_, ?_⟩
  · simp
  · intro c hc
    rw [List.mem_singleton.mp hc]
    rfl
  · exact fun c hc => (List.mem_append.mp hc).elim mem_replicate_digits (hdigits c)
  · have hzero : digitsValue (['0'] ++ (List.replicate n '0' ++ digits)) = digitsValue digits := by
      rw [← List.append_assoc, digitsValue_append,
        show ['0'] ++ List.replicate n '0' = List.replicate (n + 1) '0' from rfl,
        digitsValue_replicate_zero]
      simp
    rw [hzero, List.length_append, List.length_replicate]

/-- A point after the first digits, and a zero behind it where there are no more. -/
theorem pointed_split {digits : List Char} (hdigits : ∀ c ∈ digits, isDecimalDigit c = true)
    {n : Nat} (hn : 0 < n) (hlength : n ≤ digits.length) :
    Pointed (String.ofList (digits.take n) ++ "." ++
        (if (digits.drop n).isEmpty then "0" else String.ofList (digits.drop n)))
      (digitsValue digits * 10 ^ ((n : Int) - digits.length)) := by
  have htake : digits.take n ≠ [] := by
    rw [Ne, List.take_eq_nil_iff]
    rintro (h | h)
    · omega
    · rw [h, List.length_nil] at hlength
      omega
  have htaken : ∀ c ∈ digits.take n, isDecimalDigit c = true :=
    fun c hc => hdigits c (List.mem_of_mem_take hc)
  split
  · next hnone =>
    rw [List.isEmpty_iff, List.drop_eq_nil_iff] at hnone
    refine ⟨digits.take n, ['0'], by simp, htake, htaken, ?_, ?_⟩
    · intro c hc
      rw [List.mem_singleton.mp hc]
      rfl
    · have hzero : digitsValue (digits ++ ['0']) = 10 * digitsValue digits := by
        rw [digitsValue_append, List.length_singleton, pow_one]
        rfl
      rw [List.take_of_length_le hnone, hzero, le_antisymm hlength hnone, sub_self, zpow_zero]
      push_cast [List.length_singleton]
      rw [zpow_neg_one]
      ring
  · refine ⟨digits.take n, digits.drop n, by simp, htake, htaken, ?_, ?_⟩
    · exact fun c hc => hdigits c (List.mem_of_mem_drop hc)
    · rw [List.take_append_drop, List.length_drop]
      congr 2
      omega

/-- Digits with a point after some of them are as much less. -/
theorem positional_pointed {digits : List Char} (hdigits : ∀ c ∈ digits, isDecimalDigit c = true)
    (whole : Int) :
    Pointed (positional digits whole) (digitsValue digits * 10 ^ (whole - digits.length)) := by
  unfold positional
  split
  · next hneg =>
    have hexponent : (-((-whole).toNat + digits.length : Nat) : Int) = whole - digits.length := by
      omega
    rw [← hexponent]
    exact pointed_zeros hdigits _
  · next hpos =>
    have hpadded : ∀ c ∈ digits ++ List.replicate (whole.toNat - digits.length) '0',
        isDecimalDigit c = true :=
      fun c hc => (List.mem_append.mp hc).elim (hdigits c) mem_replicate_digits
    have hlength : (digits ++ List.replicate (whole.toNat - digits.length) '0').length =
        digits.length + (whole.toNat - digits.length) := by
      rw [List.length_append, List.length_replicate]
    have hsplit := pointed_split hpadded (n := whole.toNat) (by omega) (by omega)
    rw [digitsValue_padded, hlength, mul_assoc, ← zpow_natCast, ← zpow_add₀ (by norm_num)] at hsplit
    have hexponent : ((whole.toNat - digits.length : Nat) : Int) +
        (whole.toNat - (digits.length + (whole.toNat - digits.length) : Nat)) =
          whole - digits.length := by omega
    rw [hexponent] at hsplit
    exact hsplit

theorem exponentValue?_toString (n : Int) :
    exponentValue? ('E' :: (toString n).toList) = some n := by
  have hdigits (m : Nat) : (Nat.toDigits 10 m).isEmpty = false ∧
      (Nat.toDigits 10 m).all isDecimalDigit = true :=
    ⟨by simp, all_isDecimalDigit_toDigits m⟩
  unfold exponentValue?
  rw [toList_toString_int]
  by_cases hn : 0 ≤ n
  · obtain ⟨c, cs, hcs, hc⟩ := toDigits_eq_cons n.toNat
    have hminus : c ≠ '-' := ne_of_isDecimalDigit hc rfl
    have hplus : c ≠ '+' := ne_of_isDecimalDigit hc rfl
    have hsplit : splitSign (Nat.toDigits 10 n.toNat) = (false, Nat.toDigits 10 n.toNat) := by
      rw [hcs]
      simp [splitSign, hminus, hplus]
    rw [if_pos hn]
    simp only [hsplit, hdigits, digitsValue_toDigits]
    simpa using Int.toNat_of_nonneg hn
  · have hneg : -((-n).toNat : Int) = n := by omega
    rw [if_neg hn]
    simp only [splitSign, hdigits, digitsValue_toDigits]
    simpa using hneg

/-! ## Texts of numbers -/

/-- No word for a number begins with a digit. -/
theorem ofWord?_eq_none {s : Bool} {c : Char} {cs : List Char} (hc : isDecimalDigit c = true) :
    (ofWord? s (c :: cs) : Option (Binary f)) = none := by
  have hlower : c.toLower = c := by
    have := isDecimalDigit_iff.mp hc
    simp only [Char.isDigit, Bool.and_eq_true, decide_eq_true_eq] at this
    unfold Char.toLower
    rw [dif_neg]
    rintro ⟨h, -⟩
    exact absurd (UInt32.le_trans h this.2) (by decide)
  have hword (d : Char) (ds : List Char) (hd : isDecimalDigit d = false) :
      (String.ofList ((c :: cs).map Char.toLower) == String.ofList (d :: ds)) = false := by
    rw [beq_eq_false_iff_ne, Ne, String.ofList_inj, List.map_cons, hlower]
    exact fun h => ne_of_isDecimalDigit hc hd (List.cons.inj h).1
  have h1 := hword 'i' ['n', 'f'] rfl
  have h2 := hword 'i' ['n', 'f', 'i', 'n', 'i', 't', 'y'] rfl
  have h3 := hword 'n' ['a', 'n'] rfl
  unfold ofWord?
  dsimp only
  rw [show ("inf" : String) = String.ofList ['i', 'n', 'f'] from rfl, h1,
    show ("infinity" : String) = String.ofList ['i', 'n', 'f', 'i', 'n', 'i', 't', 'y'] from rfl, h2,
    show ("nan" : String) = String.ofList ['n', 'a', 'n'] from rfl, h3]
  rfl

/-- A sign in front of a text that begins with a digit is the sign of the number. -/
theorem ofText_signed {s : Bool} {u : String} {c : Char} {cs : List Char} {x : Binary f}
    (hu : u.toList = c :: cs) (hc : isDecimalDigit c = true)
    (hx : ofUnsigned? s u.toList = some x) :
    (ofText ((if s then "-" else "") ++ u) : Except TextFault (Binary f)) = .ok x := by
  have hminus : c ≠ '-' := ne_of_isDecimalDigit hc rfl
  have hplus : c ≠ '+' := ne_of_isDecimalDigit hc rfl
  have hlist : ((if s then "-" else "") ++ u).toList = (if s then ['-'] else []) ++ (c :: cs) := by
    rw [String.toList_append, hu]
    cases s <;> rfl
  have hempty : ((if s then "-" else "") ++ u).isEmpty = false := by
    rw [Bool.eq_false_iff, Ne, String.isEmpty_iff, ← String.toList_eq_nil_iff, hlist]
    simp
  have hsplit : splitSign ((if s then ['-'] else []) ++ (c :: cs)) = (s, c :: cs) := by
    cases s <;> simp [splitSign, hminus, hplus]
  unfold ofText
  rw [hempty, hlist, hsplit]
  rw [hu] at hx
  simp only [Bool.false_eq_true, if_false, ofWord?_eq_none hc, hx]
  rfl

/-- A number with a point that rounds to a number of the format, and the exponent behind it. -/
theorem Pointed.ofText_eq (hf : f.Narrow) {s : Bool} {m : Nat} {e : Int}
    (hc : Canonical (finite s m e : Binary f)) (hm : 0 < m) {u : String} {x : ℚ} {k : Int}
    (hu : Pointed u x) (after : String) (hafter : ∀ c ∈ after.toList.head?, isDecimalDigit c = false)
    (hk : exponentValue? after.toList = some k) (h : RoundsTo f m e (x * 10 ^ k)) :
    (ofText ((if s then "-" else "") ++ (u ++ after)) : Except TextFault (Binary f)) =
      .ok (finite s m e) := by
  obtain ⟨whole, fraction, htext, hne, hwhole, hfraction, rfl⟩ := hu
  have hlist : (u ++ after).toList = whole ++ '.' :: (fraction ++ after.toList) := by
    rw [String.toList_append, htext, List.append_assoc, List.cons_append]
  cases whole with
  | nil => exact absurd rfl hne
  | cons c cs =>
    apply ofText_signed hlist (hwhole c List.mem_cons_self)
    rw [hlist, ofUnsigned?_eq hwhole hne hfraction hafter hk]
    refine congrArg some (ofDigits_eq hf hc hm ?_ ?_)
    · exact fun d hd => (List.mem_append.mp hd).elim (hwhole d) (hfraction d)
    · rw [sub_eq_neg_add, zpow_add₀ (by norm_num), ← mul_assoc]
      exact h

/-- A floating point number reads back from its text. -/
theorem ofText_toText (hf : f.Narrow) {x : Binary f} (hx : Canonical x) :
    ofText x.toText = .ok x := by
  cases hx with
  | nan => simp [toText, ofText, splitSign, ofWord?]
  | infinite s => cases s <;> simp [toText, ofText, splitSign, ofWord?]
  | @finite s m e hbelow hfull hleast hmost =>
    unfold toText
    dsimp only
    split
    · next hm =>
      subst hm
      have he : e = f.minExponent := hfull.resolve_left (by simp)
      subst he
      cases s <;> rfl
    · next hm =>
      have hpos : 0 < m := Nat.pos_of_ne_zero hm
      have hc : Canonical (finite s m e : Binary f) := .finite s hbelow hfull hleast hmost
      have h := shortest_rounds hf (.finite false hbelow hfull hleast hmost) hpos
      generalize (shortest f m e).1 = d at h
      generalize (shortest f m e).2 = k at h
      have hdigits : ∀ c ∈ Nat.toDigits 10 d, isDecimalDigit c = true :=
        fun c hc => isDecimalDigit_toDigits hc
      have hpointed := positional_pointed hdigits
      rw [digitsValue_toDigits] at hpointed
      split
      · have hplain := (hpointed (k + (Nat.toDigits 10 d).length - 1 + 1)).ofText_eq hf hc hpos ""
          (k := 0) (by simp) rfl
          (by
            rw [zpow_zero, mul_one, show k + (Nat.toDigits 10 d).length - 1 + 1 -
              (Nat.toDigits 10 d).length = k by omega]
            exact h)
        rwa [String.append_empty] at hplain
      · have htext (n : Int) : scientific (Nat.toDigits 10 d) n =
            positional (Nat.toDigits 10 d) 1 ++ ("E" ++ toString n) := String.append_assoc
        rw [htext]
        apply (hpointed 1).ofText_eq hf hc hpos _ (k := k + (Nat.toDigits 10 d).length - 1)
        · simp
          rfl
        · rw [String.toList_append]
          exact exponentValue?_toString _
        · rw [mul_assoc, ← zpow_add₀ (by norm_num),
            show 1 - ((Nat.toDigits 10 d).length : Int) + (k + (Nat.toDigits 10 d).length - 1) = k
              by omega]
          exact h

end Binary

end ExprLang
