import ExprLang.Proofs.Lexer.Quoted

/-! Every token that the lexer finds can be written so that the lexer finds it again. -/

namespace ExprLang

namespace Token

/-- The content of a string with a backslash before every backslash and every quote. -/
def escape : List Char → List Char
  | [] => []
  | c :: cs => if c == '\\' || c == '\'' then '\\' :: c :: escape cs else c :: escape cs

/-- A token as the lexer reads it. -/
def written : Token → String
  | text content => String.ofList ('\'' :: (escape content.toList ++ ['\'']))
  | t => t.spelling

/-- The lexer finds the token in the text that it is written as. -/
def Valid (t : Token) : Prop :=
  ∃ c cs, t.written.toList = c :: cs ∧ Lexer.isSpace c = false ∧
    Lexer.tokenAt c cs = (some t, cs.length)

end Token

namespace Lexer

variable {cs rest : List Char} {c : Char}

/-- The text ends or a space follows. -/
def Apart (rest : List Char) : Prop := rest = [] ∨ ∃ r, rest = ' ' :: r

theorem takeWhile_append_of_stop {p : Char → Bool} (h : ∀ c ∈ rest.head?, p c = false)
    (cs : List Char) : (cs ++ rest).takeWhile p = cs.takeWhile p := by
  induction cs with
  | nil =>
    cases rest with
    | nil => rfl
    | cons c rest => exact List.takeWhile_cons_of_neg (by simp [h c rfl])
  | cons d cs ih => simp only [List.cons_append, List.takeWhile_cons, ih]

/-- The text ends, or a character follows that goes on with no token. -/
def Parted (rest : List Char) : Prop := ∀ c ∈ rest.head?, isSpace c = true ∨ c = '\x7d' ∨ c = ')'

theorem Apart.parted (h : Apart rest) : Parted rest := by
  rcases h with rfl | ⟨r, rfl⟩
  · intro c hc
    cases hc
  · intro c hc
    cases hc
    exact .inl rfl

theorem parted_brace (rest : List Char) : Parted ('\x7d' :: rest) := by
  intro c hc
  cases hc
  exact .inr (.inl rfl)

theorem parted_paren (rest : List Char) : Parted (')' :: rest) := by
  intro c hc
  cases hc
  exact .inr (.inr rfl)

theorem Parted.cases (h : Parted rest) :
    rest = [] ∨ ∃ c r, rest = c :: r ∧
      (c = ' ' ∨ c = '\t' ∨ c = '\n' ∨ c = '\r' ∨ c = '\x7d' ∨ c = ')') := by
  cases rest with
  | nil => exact .inl rfl
  | cons c r =>
    refine .inr ⟨c, r, rfl, ?_⟩
    have hc := h c rfl
    simp only [isSpace, Bool.or_eq_true, beq_iff_eq] at hc
    grind

theorem Parted.stops {p : Char → Bool} (hs : ∀ c, isSpace c = true → p c = false)
    (hb : p '\x7d' = false) (hp : p ')' = false) (h : Parted rest) :
    ∀ c ∈ rest.head?, p c = false := by
  intro c hc
  rcases h c hc with hc | rfl | rfl
  · exact hs c hc
  · exact hb
  · exact hp

theorem isDigit_of_isSpace (h : isSpace c = true) : isDigit c = false := by
  simp only [isSpace, Bool.or_eq_true, beq_iff_eq] at h
  rcases h with ((rfl | rfl) | rfl) | rfl <;> rfl

theorem isNamePart_of_isSpace (h : isSpace c = true) : isNamePart c = false := by
  simp only [isSpace, Bool.or_eq_true, beq_iff_eq] at h
  rcases h with ((rfl | rfl) | rfl) | rfl <;> rfl

theorem takeWhile_takeWhile (p : Char → Bool) (cs : List Char) :
    (cs.takeWhile p).takeWhile p = cs.takeWhile p := by
  induction cs with
  | nil => rfl
  | cons c cs ih =>
    rw [List.takeWhile_cons]
    split
    · rename_i hc
      rw [List.takeWhile_cons, if_pos hc, ih]
    · rfl

theorem length_takeWhile_le (p : Char → Bool) (cs : List Char) :
    (cs.takeWhile p).length ≤ cs.length :=
  (List.takeWhile_prefix p).length_le

/-! ## Numbers -/

theorem digitRun_le (cs : List Char) : digitRun cs ≤ cs.length := length_takeWhile_le isDigit cs

theorem signRun_cons (c : Char) (cs : List Char) :
    signRun (c :: cs) = if c = '+' ∨ c = '-' then 1 else 0 := by
  unfold signRun
  split <;> simp_all

theorem signRun_le (cs : List Char) : signRun cs ≤ cs.length := by
  unfold signRun
  split <;> simp

theorem exponentRun_le (cs : List Char) : exponentRun cs ≤ cs.length := by
  cases cs with
  | nil => exact Nat.le_refl 0
  | cons c cs =>
    have hs := signRun_le cs
    have hd := digitRun_le (cs.drop (signRun cs))
    rw [List.length_drop] at hd
    simp only [exponentRun, List.length_cons]
    split
    · split <;> omega
    · omega

theorem fractionRun_le (cs : List Char) : fractionRun cs ≤ cs.length := by
  unfold fractionRun
  split
  · rename_i rest
    have hd := digitRun_le rest
    have he := exponentRun_le (rest.drop (digitRun rest))
    rw [List.length_drop] at he
    simp only [List.length_cons]
    omega
  · omega

theorem numberRun_le (cs : List Char) : (numberRun cs).1 ≤ cs.length := by
  have hd := digitRun_le cs
  have hf := fractionRun_le (cs.drop (digitRun cs))
  have he := exponentRun_le (cs.drop (digitRun cs))
  rw [List.length_drop] at hf he
  simp only [numberRun]
  split <;> omega

section Append
variable (h : Parted rest)
include h

theorem digitRun_append (cs : List Char) : digitRun (cs ++ rest) = digitRun cs := by
  rw [digitRun, takeWhile_append_of_stop (h.stops (fun _ => isDigit_of_isSpace) rfl rfl), digitRun]

theorem signRun_append (cs : List Char) : signRun (cs ++ rest) = signRun cs := by
  cases cs with
  | nil =>
    rcases h.cases with rfl | ⟨c, r, rfl, rfl | rfl | rfl | rfl | rfl | rfl⟩ <;> rfl
  | cons c cs =>
    rw [List.cons_append, signRun_cons, signRun_cons]

theorem exponentRun_append (cs : List Char) : exponentRun (cs ++ rest) = exponentRun cs := by
  cases cs with
  | nil =>
    rcases h.cases with rfl | ⟨c, r, rfl, rfl | rfl | rfl | rfl | rfl | rfl⟩ <;> rfl
  | cons c cs =>
    simp only [List.cons_append, exponentRun, signRun_append h,
      List.drop_append_of_le_length (signRun_le cs), digitRun_append h]

theorem fractionRun_append (cs : List Char) : fractionRun (cs ++ rest) = fractionRun cs := by
  cases cs with
  | nil =>
    rcases h.cases with rfl | ⟨c, r, rfl, rfl | rfl | rfl | rfl | rfl | rfl⟩ <;> rfl
  | cons c cs =>
    by_cases hc : c = '.'
    · subst hc
      simp only [List.cons_append, fractionRun, digitRun_append h,
        List.drop_append_of_le_length (digitRun_le cs), exponentRun_append h]
    · simp [fractionRun, hc]

/-- What follows is no part of the number. -/
theorem numberRun_append (cs : List Char) : numberRun (cs ++ rest) = numberRun cs := by
  simp only [numberRun, digitRun_append h, List.drop_append_of_le_length (digitRun_le cs),
    fractionRun_append h, exponentRun_append h]

end Append

theorem digitRun_take (n : Nat) (cs : List Char) : digitRun (cs.take n) = min n (digitRun cs) := by
  induction cs generalizing n with
  | nil => simp [digitRun]
  | cons c cs ih =>
    cases n with
    | zero => simp [digitRun]
    | succ n =>
      have ih := ih n
      simp only [digitRun, List.take_succ_cons, List.takeWhile_cons] at ih ⊢
      split
      · simp only [List.length_cons, ih]
        omega
      · simp

theorem signRun_take {n : Nat} (hn : 0 < n) (cs : List Char) :
    signRun (cs.take n) = signRun cs := by
  obtain ⟨n, rfl⟩ := Nat.exists_eq_add_of_lt hn
  cases cs with
  | nil => rfl
  | cons c cs =>
    rw [Nat.zero_add, List.take_succ_cons, signRun_cons, signRun_cons]

theorem exponentRun_take (cs : List Char) :
    exponentRun (cs.take (exponentRun cs)) = exponentRun cs := by
  cases cs with
  | nil => rfl
  | cons c cs =>
    by_cases hc : (c == 'e' || c == 'E') = true
    · by_cases hd : digitRun (cs.drop (signRun cs)) = 0
      · simp [exponentRun, hd]
      · have he : exponentRun (c :: cs) = signRun cs + digitRun (cs.drop (signRun cs)) + 1 := by
          simp only [exponentRun, hc, if_true, if_neg hd]
          omega
        rw [he, List.take_succ_cons, exponentRun, if_pos hc, signRun_take (by omega)]
        simp only [List.drop_take, digitRun_take, Nat.add_sub_cancel_left, Nat.min_self,
          if_neg hd]
        omega
    · simp [exponentRun, hc]

theorem fractionRun_take (cs : List Char) :
    fractionRun (cs.take (fractionRun cs)) = fractionRun cs := by
  cases cs with
  | nil => rfl
  | cons c cs =>
    by_cases hc : c = '.'
    · subst hc
      have hf : fractionRun ('.' :: cs) =
          digitRun cs + exponentRun (cs.drop (digitRun cs)) + 1 := by
        simp only [fractionRun]
        omega
      rw [hf, List.take_succ_cons, fractionRun, digitRun_take, Nat.min_eq_right (by omega),
        List.drop_take, Nat.add_sub_cancel_left, exponentRun_take]
      omega
    · simp [fractionRun, hc]

theorem fractionRun_take_zero (h : fractionRun cs = 0) (n : Nat) :
    fractionRun (cs.take n) = 0 := by
  cases cs with
  | nil => simpa using h
  | cons c cs =>
    have hc : c ≠ '.' := by
      rintro rfl
      simp only [fractionRun] at h
      omega
    cases n <;> simp [fractionRun, hc]

/-- The number at the start is a number by itself. -/
theorem numberRun_take (cs : List Char) : numberRun (cs.take (numberRun cs).1) = numberRun cs := by
  have htail : ∀ tail, digitRun (cs.take (digitRun cs + tail)) = digitRun cs ∧
      (cs.take (digitRun cs + tail)).drop (digitRun cs) = (cs.drop (digitRun cs)).take tail := by
    intro tail
    rw [digitRun_take, Nat.min_eq_right (by omega), List.drop_take, Nat.add_sub_cancel_left]
    exact ⟨rfl, rfl⟩
  by_cases hf : fractionRun (cs.drop (digitRun cs)) = 0
  · obtain ⟨hw, ha⟩ := htail (exponentRun (cs.drop (digitRun cs)))
    simp only [numberRun, hf, if_true, hw, ha, fractionRun_take_zero hf, exponentRun_take]
  · obtain ⟨hw, ha⟩ := htail (fractionRun (cs.drop (digitRun cs)))
    simp only [numberRun, if_neg hf, hw, ha, fractionRun_take]

/-! ## Strings -/

theorem escape_eq_escapeFor (cs : List Char) : Token.escape cs = escapeFor '\'' cs := by
  induction cs with
  | nil => rfl
  | cons c cs ih =>
    rw [escapeFor, List.flatMap_cons, ← escapeFor, ← ih]
    by_cases hc : c = '\\' ∨ c = '\'' <;> simp [Token.escape, hc]

/-! ## Single tokens -/

/-- A number starts with a digit, or with a point and a digit. -/
def startsNumber (c : Char) (cs : List Char) : Bool := isDigit c || (c == '.' && digitRun cs != 0)

theorem startsNumber_cases (h : startsNumber c cs = true) :
    isDigit c = true ∨ c = '.' ∧ digitRun cs ≠ 0 := by
  simpa [startsNumber] using h

theorem tokenAt_number (h : startsNumber c cs = true) :
    tokenAt c cs =
      (some (if (numberRun (c :: cs)).2 then
          .floating (String.ofList ((c :: cs).take (numberRun (c :: cs)).1))
        else .integer (String.ofList ((c :: cs).take (numberRun (c :: cs)).1))),
        (numberRun (c :: cs)).1 - 1) := by
  rw [tokenAt, ← startsNumber, if_pos h]

theorem tokenAt_quoted {n : Nat} (hn : startsNumber c cs = false)
    (hq : (c == '"' || c == '\'') = true) (h : quotedRun c cs = (n, true)) :
    tokenAt c cs = (some (.text (String.ofList (unescape (cs.take (n - 1))))), n) := by
  rw [tokenAt, ← startsNumber, if_neg (Bool.eq_false_iff.mp hn), if_pos hq, h]
  rfl

theorem tokenAt_word (hn : startsNumber c cs = false) (hq : (c == '"' || c == '\'') = false)
    (h : isNameStart c = true) :
    tokenAt c cs = (some (wordToken (String.ofList (c :: cs.takeWhile isNamePart))),
      (cs.takeWhile isNamePart).length) := by
  have htake : cs.take (cs.takeWhile isNamePart).length = cs.takeWhile isNamePart :=
    (List.prefix_iff_eq_take.mp (List.takeWhile_prefix _)).symm
  rw [tokenAt, ← startsNumber, if_neg (Bool.eq_false_iff.mp hn),
    if_neg (Bool.eq_false_iff.mp hq), if_pos h]
  simp only [htake]

theorem tokenAt_symbol (hn : startsNumber c cs = false) (hq : (c == '"' || c == '\'') = false)
    (h : isNameStart c = false) {s : Symbol} (hs : symbolAt? (c :: cs) = some s) :
    tokenAt c cs = (some (.symbol s), s.spelling.length - 1) := by
  rw [tokenAt, ← startsNumber, if_neg (Bool.eq_false_iff.mp hn), if_neg (Bool.eq_false_iff.mp hq),
    if_neg (Bool.eq_false_iff.mp h), hs]

/-- The four ways to find a token. -/
theorem tokenAt_cases {t : Token} {n : Nat} (h : tokenAt c cs = (some t, n)) :
    startsNumber c cs = true ∨ startsNumber c cs = false ∧
      ((c == '"' || c == '\'') = true ∧ quotedRun c cs = (n, true) ∨
        (c == '"' || c == '\'') = false ∧
          (isNameStart c = true ∨
            isNameStart c = false ∧ ∃ s, symbolAt? (c :: cs) = some s)) := by
  cases hn : startsNumber c cs with
  | true => exact .inl rfl
  | false =>
    refine .inr ⟨rfl, ?_⟩
    cases hq : (c == '"' || c == '\'') with
    | true =>
      refine .inl ⟨rfl, ?_⟩
      rw [tokenAt, ← startsNumber, if_neg (Bool.eq_false_iff.mp hn), if_pos hq] at h
      cases hr : quotedRun c cs with
      | mk m closed =>
        rw [hr] at h
        cases closed with
        | true => cases h; rfl
        | false => cases h
    | false =>
      refine .inr ⟨rfl, ?_⟩
      cases hw : isNameStart c with
      | true => exact .inl rfl
      | false =>
        refine .inr ⟨rfl, ?_⟩
        rw [tokenAt, ← startsNumber, if_neg (Bool.eq_false_iff.mp hn),
          if_neg (Bool.eq_false_iff.mp hq), if_neg (Bool.eq_false_iff.mp hw)] at h
        cases hs : symbolAt? (c :: cs) with
        | none => rw [hs] at h; cases h
        | some s => exact ⟨s, rfl⟩

/-! ## Tokens that were found -/

theorem keyword_valid (w : Keyword) : (Token.keyword w).Valid := by
  cases w <;> exact ⟨_, _, rfl, rfl, rfl⟩

theorem symbol_valid (s : Symbol) : (Token.symbol s).Valid := by
  cases s <;> exact ⟨_, _, rfl, rfl, rfl⟩

theorem text_valid (s : String) : (Token.text s).Valid := by
  refine ⟨'\'', Token.escape s.toList ++ ['\''], String.toList_ofList, rfl, ?_⟩
  have hrun := quotedRun_escapeFor (.inr rfl) s.toList []
  rw [← escape_eq_escapeFor] at hrun
  rw [tokenAt_quoted rfl rfl hrun]
  simp [escape_eq_escapeFor, unescape_escapeFor (.inr rfl)]

theorem numberRun_pos (h : startsNumber c cs = true) : 0 < (numberRun (c :: cs)).1 := by
  rcases startsNumber_cases h with hd | ⟨rfl, -⟩
  · have hw : digitRun (c :: cs) = digitRun cs + 1 := by
      rw [digitRun, List.takeWhile_cons, if_pos hd, List.length_cons, digitRun]
    simp only [numberRun, hw]
    omega
  · have hf : fractionRun ('.' :: cs) ≠ 0 := by
      simp only [fractionRun]
      omega
    have hw : digitRun ('.' :: cs) = 0 := rfl
    simp only [numberRun, hw, List.drop_zero, if_neg hf]
    omega

theorem startsNumber_take (h : startsNumber c cs = true) :
    startsNumber c (cs.take ((numberRun (c :: cs)).1 - 1)) = true := by
  rcases startsNumber_cases h with hd | ⟨rfl, hd⟩
  · rw [startsNumber, hd, Bool.true_or]
  · have hw : digitRun ('.' :: cs) = 0 := rfl
    have hf : fractionRun ('.' :: cs) =
        1 + digitRun cs + exponentRun (cs.drop (digitRun cs)) := rfl
    have hn : (numberRun ('.' :: cs)).1 = fractionRun ('.' :: cs) := by
      simp only [numberRun, hw, List.drop_zero, Nat.zero_add, ite_eq_right_iff]
      omega
    have hne : digitRun (cs.take ((numberRun ('.' :: cs)).1 - 1)) ≠ 0 := by
      rw [digitRun_take, hn, hf]
      omega
    simp [startsNumber, hne]

theorem startsNumber_word (h : isNameStart c = true) (hn : startsNumber c cs = false)
    (rest : List Char) : startsNumber c rest = false := by
  obtain ⟨hd, -⟩ := Bool.or_eq_false_iff.mp hn
  have hp : (c == '.') = false := by
    cases hc : c == '.' with
    | false => rfl
    | true =>
      rw [eq_of_beq hc] at h
      cases h
  rw [startsNumber, hd, hp]
  rfl

theorem startsNumber_quote (hq : c = '"' ∨ c = '\'') (cs : List Char) :
    startsNumber c cs = false := by
  rcases hq with rfl | rfl <;> rfl

theorem symbolAt?_starts {s : Symbol} (h : symbolAt? cs = some s) : s.spelling.toList <+: cs := by
  have hfound : s.spelling.toList.isPrefixOf cs = true := by
    have h := List.find?_some h
    exact h
  exact List.isPrefixOf_iff_prefix.mp hfound

theorem tokenAt_le {t : Token} {n : Nat} (h : tokenAt c cs = (some t, n)) : n ≤ cs.length := by
  rcases tokenAt_cases h with hn | ⟨hn, ⟨hq, hquoted⟩ | ⟨hq, hw | ⟨hw, s, hs⟩⟩⟩
  · rw [tokenAt_number hn, Prod.mk.injEq] at h
    have hle := numberRun_le (c :: cs)
    rw [List.length_cons] at hle
    omega
  · exact quotedRun_le hquoted
  · rw [tokenAt_word hn hq hw, Prod.mk.injEq] at h
    rw [← h.2]
    exact length_takeWhile_le isNamePart cs
  · rw [tokenAt_symbol hn hq hw hs, Prod.mk.injEq] at h
    have hle := (symbolAt?_starts hs).length_le
    rw [String.length_toList, List.length_cons] at hle
    omega

/-- The characters of a token make up the token without the text behind them. -/
theorem tokenAt_alone {t : Token} (h : tokenAt c (cs ++ rest) = (some t, cs.length)) :
    tokenAt c cs = (some t, cs.length) := by
  rcases tokenAt_cases h with hn | ⟨hn, ⟨hq, hquoted⟩ | ⟨hq, hw | ⟨hw, s, hs⟩⟩⟩
  · have hpos := numberRun_pos hn
    have hrun := numberRun_take (c :: (cs ++ rest))
    have hstart := startsNumber_take hn
    rw [tokenAt_number hn, Prod.mk.injEq] at h
    obtain ⟨ht, hlength⟩ := h
    have hone : (numberRun (c :: (cs ++ rest))).1 = cs.length + 1 := by omega
    have htake : (c :: (cs ++ rest)).take (numberRun (c :: (cs ++ rest))).1 = c :: cs := by
      rw [hone, List.take_succ_cons, List.take_left]
    rw [hlength, List.take_left] at hstart
    rw [htake] at hrun ht
    rw [tokenAt_number hstart, hrun, hone, ← List.length_cons (a := c), List.take_length, ht]
    rfl
  · have hclosed := quotedRun_cut (ne_backslash_of_quote (by simpa using hq)) hquoted (Nat.le_refl _)
    have hpos := quotedRun_pos hclosed
    rw [tokenAt_quoted hn hq hquoted, List.take_append_of_le_length (by omega)] at h
    rw [tokenAt_quoted (startsNumber_quote (by simpa using hq) cs) hq hclosed, h]
  · rw [tokenAt_word hn hq hw, Prod.mk.injEq] at h
    obtain ⟨ht, hlength⟩ := h
    have hword : (cs ++ rest).takeWhile isNamePart = cs := by
      have hprefix := List.takeWhile_prefix (p := isNamePart) (l := cs ++ rest)
      rw [List.prefix_iff_eq_take.mp hprefix, hlength, List.take_left]
    have hall := takeWhile_takeWhile isNamePart (cs ++ rest)
    rw [hword] at hall ht
    rw [tokenAt_word (startsNumber_word hw hn cs) hq hw, hall, ht]
  · rw [tokenAt_symbol hn hq hw hs, Prod.mk.injEq, Option.some.injEq] at h
    obtain ⟨rfl, hlength⟩ := h
    obtain ⟨d, ds, hspelling, -, hsign⟩ := symbol_valid s
    have hprefix := symbolAt?_starts hs
    rw [show s.spelling.toList = d :: ds from hspelling] at hprefix
    rw [← String.length_toList, show s.spelling.toList = d :: ds from hspelling] at hlength
    obtain ⟨rfl, hrest⟩ := List.cons_prefix_cons.mp hprefix
    have hds : ds = cs := by
      rw [List.prefix_iff_eq_take.mp hrest, show ds.length = cs.length from hlength, List.take_left]
    rwa [← hds]

theorem number_valid (h : startsNumber c cs = true) (hs : isSpace c = false) {t : Token} {n : Nat}
    (ht : tokenAt c cs = (some t, n)) : t.Valid := by
  have hlength : (cs.take n).length = n := List.length_take_of_le (tokenAt_le ht)
  have hsplit : tokenAt c (cs.take n ++ cs.drop n) = (some t, (cs.take n).length) := by
    rw [List.take_append_drop, hlength, ht]
  refine ⟨c, cs.take n, ?_, hs, tokenAt_alone hsplit⟩
  have hpos := numberRun_pos h
  rw [tokenAt_number h, Prod.mk.injEq, Option.some.injEq] at ht
  obtain ⟨rfl, rfl⟩ := ht
  have htake : (c :: cs).take (numberRun (c :: cs)).1 =
      c :: cs.take ((numberRun (c :: cs)).1 - 1) := by
    rw [← List.take_succ_cons, Nat.sub_add_cancel hpos]
  split <;> simp only [Token.written, Token.spelling, String.toList_ofList, htake]

theorem wordToken_written (s : String) : (wordToken s).written = s := by
  unfold wordToken
  split
  · rename_i w hw
    have h := List.find?_some hw
    exact eq_of_beq h
  · rfl

theorem tokenAt_valid {t : Token} {n : Nat} (hs : isSpace c = false)
    (h : tokenAt c cs = (some t, n)) : t.Valid := by
  rcases tokenAt_cases h with hn | ⟨hn, ⟨hq, hr⟩ | ⟨hq, hw | ⟨hw, s, hsym⟩⟩⟩
  · exact number_valid hn hs h
  · rw [tokenAt_quoted hn hq hr] at h
    cases h
    exact text_valid _
  · rw [tokenAt_word hn hq hw] at h
    cases h
    refine ⟨c, cs.takeWhile isNamePart, ?_, hs, ?_⟩
    · rw [wordToken_written, String.toList_ofList]
    · rw [tokenAt_word (startsNumber_word hw hn _) hq hw, takeWhile_takeWhile]
  · rw [tokenAt_symbol hn hq hw hsym] at h
    cases h
    exact symbol_valid s

theorem dropWhile_head {p : Char → Bool} {ds : List Char} (h : cs.dropWhile p = c :: ds) :
    p c = false := by
  induction cs with
  | nil => cases h
  | cons d cs ih =>
    rw [List.dropWhile_cons] at h
    split at h
    · exact ih h
    · rename_i hd
      cases h
      simpa using hd

theorem next_valid {o : Nat} {l : Lexeme} (h : next o cs = .found l rest) : l.token.Valid := by
  unfold next at h
  dsimp only at h
  split at h
  · cases h
  · rename_i c r hc
    split at h
    · rename_i t ht
      cases h
      exact tokenAt_valid (dropWhile_head hc) (Prod.ext ht rfl)
    · cases h

/-- Every token of a text is valid. -/
theorem lexFrom_valid {o : Nat} {ls : List Lexeme} (h : lexFrom o cs = .ok ls) :
    ∀ l ∈ ls, l.token.Valid := by
  fun_induction lexFrom o cs generalizing ls with
  | case1 =>
    cases h
    intro l hl
    cases hl
  | case2 => cases h
  | case3 o cs l rest hn ls' hr ih =>
    cases h
    intro k hk
    rcases List.mem_cons.mp hk with rfl | hk
    · exact next_valid hn
    · exact ih hr k hk
  | case4 => cases h

/-! ## The characters of integers -/

/-- A number without a fraction and an exponent is all digits. -/
theorem numberRun_whole (h : (numberRun (c :: cs)).2 = false) :
    (numberRun (c :: cs)).1 = digitRun (c :: cs) := by
  unfold numberRun at h ⊢
  dsimp only at h ⊢
  generalize (if fractionRun _ = 0 then _ else _ : Nat) = tail at h ⊢
  have htail : tail = 0 := by simpa using h
  rw [htail, Nat.add_zero]

/-- An integer token is written with digits only. -/
theorem isDigit_of_valid {s : String} (h : (Token.integer s).Valid) :
    ∃ c cs, s.toList = c :: cs ∧ ∀ d ∈ c :: cs, isDigit d = true := by
  obtain ⟨c, cs, hs, -, htoken⟩ := h
  refine ⟨c, cs, hs, ?_⟩
  rcases tokenAt_cases htoken with hn | ⟨hn, ⟨hq, hr⟩ | ⟨hq, hw | ⟨hw, sym, hsym⟩⟩⟩
  · rw [tokenAt_number hn, Prod.mk.injEq, Option.some.injEq] at htoken
    obtain ⟨hinteger, hlength⟩ := htoken
    split at hinteger
    · cases hinteger
    · next hwhole =>
      have hrun := numberRun_whole (Bool.eq_false_iff.mpr hwhole)
      have hpos := numberRun_pos hn
      have hall : digitRun (c :: cs) = (c :: cs).length := by
        rw [List.length_cons]
        omega
      rw [← (List.takeWhile_prefix isDigit).eq_of_length hall]
      exact List.all_eq_true.mp List.all_takeWhile
  · rw [tokenAt_quoted hn hq hr] at htoken
    cases htoken
  · rw [tokenAt_word hn hq hw, wordToken] at htoken
    split at htoken <;> cases htoken
  · rw [tokenAt_symbol hn hq hw hsym] at htoken
    cases htoken

/-- Digits make up an integer token. -/
theorem tokenAt_digits (h : ∀ d ∈ c :: cs, isDigit d = true) :
    tokenAt c cs = (some (.integer (String.ofList (c :: cs))), cs.length) := by
  have hnumber : startsNumber c cs = true := by simp [startsNumber, h c List.mem_cons_self]
  have hrun : digitRun (c :: cs) = (c :: cs).length := by
    have hall : (c :: cs ++ []).takeWhile isDigit = c :: cs ++ [].takeWhile isDigit :=
      List.takeWhile_append_of_pos h
    rw [List.append_nil] at hall
    rw [digitRun, hall, List.takeWhile_nil, List.append_nil]
  have hwhole : numberRun (c :: cs) = ((c :: cs).length, false) := by
    simp [numberRun, hrun, fractionRun, exponentRun]
  rw [tokenAt_number hnumber, hwhole]
  simp

/-! ## Tokens before other text -/

theorem word_append {t : Token} {n : Nat} (hn : startsNumber c cs = false)
    (hq : (c == '"' || c == '\'') = false) (hw : isNameStart c = true)
    (h : tokenAt c cs = (some t, n)) (hp : ∀ d ∈ rest.head?, isNamePart d = false) :
    tokenAt c (cs ++ rest) = (some t, n) := by
  rw [tokenAt_word (startsNumber_word hw hn _) hq hw, takeWhile_append_of_stop hp, ← h,
    tokenAt_word hn hq hw]

theorem startsNumber_append (hr : Parted rest) (c : Char) (cs : List Char) :
    startsNumber c (cs ++ rest) = startsNumber c cs := by
  rw [startsNumber, startsNumber, digitRun_append hr]

theorem symbolAt?_append (hr : Parted rest) (c : Char) (cs : List Char) :
    symbolAt? (c :: (cs ++ rest)) = symbolAt? (c :: cs) := by
  have hp (s : Symbol) : s.spelling.toList.isPrefixOf (c :: (cs ++ rest)) =
      s.spelling.toList.isPrefixOf (c :: cs) := by
    -- No sign goes on with a space, a closing brace or a closing parenthesis.
    cases cs with
    | nil =>
      rcases hr.cases with rfl | ⟨d, r, rfl, rfl | rfl | rfl | rfl | rfl | rfl⟩ <;> cases s <;> rfl
    | cons d cs => cases s <;> rfl
  simp only [symbolAt?, hp]

/-- What is found at the start of a text is found too where the text goes on, unless that goes on
with the token. -/
theorem tokenAt_append {t : Token} {n : Nat} (h : tokenAt c cs = (some t, n))
    (hr : Parted rest) : tokenAt c (cs ++ rest) = (some t, n) := by
  rcases tokenAt_cases h with hn | ⟨hn, ⟨hq, hquoted⟩ | ⟨hq, hw | ⟨hw, s, hs⟩⟩⟩
  · rw [tokenAt_number ((startsNumber_append hr c cs).trans hn), ← List.cons_append,
      numberRun_append hr, List.take_append_of_le_length (numberRun_le _), ← h, tokenAt_number hn]
  · have hle := tokenAt_le h
    rw [tokenAt_quoted ((startsNumber_append hr c cs).trans hn) hq
        (quotedRun_append (ne_backslash_of_quote (by simpa using hq)) hquoted rest),
      List.take_append_of_le_length (by omega), ← h, tokenAt_quoted hn hq hquoted]
  · exact word_append hn hq hw h (hr.stops (fun _ => isNamePart_of_isSpace) rfl rfl)
  · rw [tokenAt_symbol ((startsNumber_append hr c cs).trans hn) hq hw
      ((symbolAt?_append hr c cs).trans hs), ← h, tokenAt_symbol hn hq hw hs]

/-- A name is found before a colon. -/
theorem name_before_colon {s : String}
    (h : tokenAt c cs = (some (.name s), cs.length)) (rest : List Char) :
    tokenAt c (cs ++ ':' :: rest) = (some (.name s), cs.length) := by
  -- Only the third way finds a name.
  rcases tokenAt_cases h with hn | ⟨hn, ⟨hq, hquoted⟩ | ⟨hq, hw | ⟨hw, s', hs⟩⟩⟩
  · rw [tokenAt_number hn, Prod.mk.injEq, Option.some.injEq] at h
    obtain ⟨h, -⟩ := h
    split at h <;> cases h
  · rw [tokenAt_quoted hn hq hquoted] at h
    cases h
  · exact word_append hn hq hw h fun d hd => by cases hd; rfl
  · rw [tokenAt_symbol hn hq hw hs] at h
    cases h

/-! ## Texts -/

theorem byteLength_append (cs ds : List Char) :
    byteLength (cs ++ ds) = byteLength cs + byteLength ds := by
  induction cs with
  | nil => simp [byteLength]
  | cons c cs ih => simp only [List.cons_append, byteLength, ih, Nat.add_assoc]

theorem byteLength_toList (s : String) : byteLength s.toList = s.utf8ByteSize := by
  have hlist (cs : List Char) : byteLength cs = (String.ofList cs).utf8ByteSize := by
    induction cs with
    | nil => rfl
    | cons c cs ih =>
      rw [String.ofList_cons, String.utf8ByteSize_append, String.utf8ByteSize_singleton, ← ih]
      rfl
  rw [hlist, String.ofList_toList]

/-- A token behind spaces, if the text after it leaves it as it is. -/
theorem next_spaced {spaces : List Char} (o : Nat) {t : Token}
    (hspaces : ∀ d ∈ spaces, isSpace d = true) (hs : isSpace c = false)
    (h : tokenAt c (cs ++ rest) = (some t, cs.length)) :
    next o (spaces ++ c :: (cs ++ rest)) =
      .found ⟨t, ⟨o + byteLength spaces, o + byteLength spaces + byteLength (c :: cs)⟩⟩ rest := by
  have hneg : ¬ isSpace c = true := Bool.eq_false_iff.mp hs
  simp only [next, List.dropWhile_append_of_pos hspaces, List.takeWhile_append_of_pos hspaces,
    List.dropWhile_cons_of_neg hneg, List.takeWhile_cons_of_neg hneg, List.append_nil, h,
    List.take_left, List.drop_left]

theorem next_found {o : Nat} {t : Token} (hs : isSpace c = false)
    (h : tokenAt c (cs ++ rest) = (some t, cs.length)) :
    next o (c :: (cs ++ rest)) =
      .found ⟨t, ⟨o, o + byteLength (c :: cs)⟩⟩ rest := by
  have hnone : ∀ d ∈ ([] : List Char), isSpace d = true := nofun
  exact next_spaced o hnone hs h

/-- What was found is a token behind spaces, and its place is that of its characters. -/
theorem next_split {o : Nat} {l : Lexeme} (h : next o cs = .found l rest) :
    ∃ spaces c body, cs = spaces ++ c :: (body ++ rest) ∧ (∀ d ∈ spaces, isSpace d = true) ∧
      isSpace c = false ∧ tokenAt c (body ++ rest) = (some l.token, body.length) ∧
      l.span = ⟨o + byteLength spaces, o + byteLength spaces + byteLength (c :: body)⟩ := by
  unfold next at h
  dsimp only at h
  split at h
  · cases h
  · next c r hc =>
    split at h
    · next t hfound =>
      cases h
      have htoken : tokenAt c r = (some t, (tokenAt c r).2) := Prod.ext hfound rfl
      have hbody : (r.take (tokenAt c r).2).length = (tokenAt c r).2 :=
        List.length_take_of_le (tokenAt_le htoken)
      refine ⟨cs.takeWhile isSpace, c, r.take (tokenAt c r).2, ?_,
        List.all_eq_true.mp List.all_takeWhile, dropWhile_head hc, ?_, rfl⟩
      · rw [List.take_append_drop, ← hc, List.takeWhile_append_dropWhile]
      · rw [List.take_append_drop, hbody, htoken]
    · cases h

/-- A space moves the text after it by one byte. -/
theorem next_space (o : Nat) (cs : List Char) : next o (' ' :: cs) = next (o + 1) cs := by
  have hb : byteLength (' ' :: cs.takeWhile isSpace) = 1 + byteLength (cs.takeWhile isSpace) := rfl
  have hs : isSpace ' ' = true := rfl
  simp only [next, List.takeWhile_cons_of_pos hs, List.dropWhile_cons_of_pos hs, hb,
    Nat.add_assoc]

/-- A token that is written is found. -/
theorem next_written {t : Token} (h : t.Valid) (hr : Apart rest) (o : Nat) :
    next o (t.written.toList ++ rest) =
      .found ⟨t, ⟨o, o + byteLength t.written.toList⟩⟩ rest := by
  obtain ⟨c, cs, hc, hs, ht⟩ := h
  rw [hc, List.cons_append]
  exact next_found hs (tokenAt_append ht hr.parted)

theorem next_name {s : String} (h : (Token.name s).Valid) (rest : List Char) (o : Nat) :
    next o (s.toList ++ ':' :: rest) =
      .found ⟨.name s, ⟨o, o + byteLength s.toList⟩⟩ (':' :: rest) := by
  obtain ⟨c, cs, hc, hs, ht⟩ := h
  rw [show s.toList = c :: cs from hc, List.cons_append]
  exact next_found hs (name_before_colon ht rest)

theorem next_colon (rest : List Char) (o : Nat) :
    next o (':' :: rest) = .found ⟨.symbol .colon, ⟨o, o + 1⟩⟩ rest := rfl

end Lexer

end ExprLang
