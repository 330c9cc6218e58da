import ExprLang.Lexer

/-! What stands between the quotes of a string, one glyph at a time: a character, or a backslash
and the character that it takes with it. The reader that looks for the closing quote and the one
that drops backslashes go through the same glyphs. -/

namespace ExprLang.Lexer

/-- A character of a string as it is written, perhaps behind a backslash. -/
inductive Glyph where
  | plain (c : Char)
  | escaped (c : Char)
deriving DecidableEq, Inhabited, Repr

namespace Glyph

def written : Glyph → List Char
  | plain c => [c]
  | escaped c => ['\\', c]

/-- Only a backslash before a backslash or a quote is dropped. -/
def meant : Glyph → List Char
  | plain c => [c]
  | escaped c => if c = '\\' ∨ c = '\'' ∨ c = '"' then [c] else ['\\', c]

/-- The glyph may stand between these quotes. -/
def Fits (quote : Char) : Glyph → Prop
  | plain c => c ≠ quote ∧ c ≠ '\\'
  | escaped c => c ≠ '\n'

/-- The glyph that stands for a character between these quotes. -/
def ofChar (quote c : Char) : Glyph := if c = '\\' ∨ c = quote then escaped c else plain c

end Glyph

/-- The characters, with a backslash before every backslash and every quote of this kind. -/
def escapeFor (quote : Char) (cs : List Char) : List Char :=
  cs.flatMap fun c => if c = '\\' ∨ c = quote then ['\\', c] else [c]

variable {quote c : Char} {cs rest : List Char} {gs : List Glyph} {n : Nat}

/-- Either character that may open a string is none that escapes. -/
theorem ne_backslash_of_quote (h : quote = '"' ∨ quote = '\'') : quote ≠ '\\' := by
  rcases h with rfl | rfl <;> decide

/-! ## Where a string ends -/

theorem quotedRun_quote (quote : Char) (cs : List Char) :
    quotedRun quote (quote :: cs) = (1, true) := by
  rw [quotedRun.eq_def]
  simp

theorem quotedRun_plain (hq : c ≠ quote) (hb : c ≠ '\\') (cs : List Char) :
    quotedRun quote (c :: cs) = ((quotedRun quote cs).1 + 1, (quotedRun quote cs).2) := by
  rw [quotedRun.eq_def]
  simp [hq, hb]

theorem quotedRun_escaped (hq : quote ≠ '\\') (hc : c ≠ '\n') (cs : List Char) :
    quotedRun quote ('\\' :: c :: cs) =
      ((quotedRun quote cs).1 + 2, (quotedRun quote cs).2) := by
  rw [quotedRun.eq_def]
  simp [hq.symm, hc]

/-- Glyphs that fit are followed to the quote behind them. -/
theorem quotedRun_glyphs (hq : quote ≠ '\\') (h : ∀ g ∈ gs, g.Fits quote) (rest : List Char) :
    quotedRun quote (gs.flatMap Glyph.written ++ quote :: rest) =
      ((gs.flatMap Glyph.written).length + 1, true) := by
  induction gs with
  | nil => exact quotedRun_quote quote rest
  | cons g gs ih =>
    obtain ⟨hg, hgs⟩ := List.forall_mem_cons.mp h
    cases g with
    | plain c =>
      show quotedRun quote (c :: (gs.flatMap Glyph.written ++ quote :: rest)) = _
      rw [quotedRun_plain hg.1 hg.2, ih hgs]
      rfl
    | escaped c =>
      show quotedRun quote ('\\' :: c :: (gs.flatMap Glyph.written ++ quote :: rest)) = _
      rw [quotedRun_escaped hq hg, ih hgs]
      rfl

/-- A string that is closed is made of glyphs that fit. -/
theorem glyphs_of_quotedRun (h : quotedRun quote cs = (n, true)) :
    ∃ (gs : List Glyph) (rest : List Char), (∀ g ∈ gs, g.Fits quote) ∧
      cs = gs.flatMap Glyph.written ++ quote :: rest ∧
      n = (gs.flatMap Glyph.written).length + 1 := by
  fun_induction quotedRun quote cs generalizing n with
  | case1 => cases h
  | case2 c cs hc =>
    cases h
    exact ⟨[], cs, by simp, by rw [eq_of_beq hc]; rfl, rfl⟩
  | case3 => cases h
  | case4 => cases h
  | case5 c hc hb e cs he m closed hr ih =>
    cases h
    obtain ⟨gs, rest, hgs, rfl, rfl⟩ := ih hr
    have hfits : (Glyph.escaped e).Fits quote := fun h => he (beq_iff_eq.mpr h)
    refine ⟨.escaped e :: gs, rest, List.forall_mem_cons.mpr ⟨hfits, hgs⟩, ?_, rfl⟩
    rw [eq_of_beq hb]
    rfl
  | case6 c cs hc hb m closed hr ih =>
    cases h
    obtain ⟨gs, rest, hgs, rfl, rfl⟩ := ih hr
    have hfits : (Glyph.plain c).Fits quote := ⟨by simpa using hc, by simpa using hb⟩
    exact ⟨.plain c :: gs, rest, List.forall_mem_cons.mpr ⟨hfits, hgs⟩, rfl, rfl⟩

theorem quotedRun_pos (h : quotedRun quote cs = (n, true)) : 0 < n := by
  obtain ⟨gs, rest, -, -, rfl⟩ := glyphs_of_quotedRun h
  exact Nat.succ_pos _

theorem quotedRun_le (h : quotedRun quote cs = (n, true)) : n ≤ cs.length := by
  obtain ⟨gs, rest, -, rfl, rfl⟩ := glyphs_of_quotedRun h
  simp

theorem quotedRun_append (hq : quote ≠ '\\') (h : quotedRun quote cs = (n, true))
    (tail : List Char) : quotedRun quote (cs ++ tail) = (n, true) := by
  obtain ⟨gs, rest, hgs, rfl, rfl⟩ := glyphs_of_quotedRun h
  rw [List.append_assoc, List.cons_append]
  exact quotedRun_glyphs hq hgs (rest ++ tail)

/-- A string that is closed within the first part of a text. -/
theorem quotedRun_cut (hq : quote ≠ '\\') {tail : List Char}
    (h : quotedRun quote (cs ++ tail) = (n, true)) (hn : n ≤ cs.length) :
    quotedRun quote cs = (n, true) := by
  obtain ⟨gs, rest, hgs, hcs, rfl⟩ := glyphs_of_quotedRun h
  have hstring : gs.flatMap Glyph.written ++ [quote] <+: cs ++ tail :=
    ⟨rest, by rw [hcs, List.append_assoc, List.singleton_append]⟩
  obtain ⟨rest', rfl⟩ :=
    List.prefix_of_prefix_length_le hstring (List.prefix_append cs tail) (by simpa using hn)
  rw [List.append_assoc, List.singleton_append]
  exact quotedRun_glyphs hq hgs rest'

/-! ## What a string means -/

theorem unescape_plain (hc : c ≠ '\\') (cs : List Char) :
    unescape (c :: cs) = c :: unescape cs := by
  rw [unescape]
  · exact fun h _ => hc h
  · exact fun _ _ h _ => hc h

theorem unescape_glyphs (h : ∀ g ∈ gs, g.Fits quote) :
    unescape (gs.flatMap Glyph.written) = gs.flatMap Glyph.meant := by
  induction gs with
  | nil => rfl
  | cons g gs ih =>
    obtain ⟨hg, hgs⟩ := List.forall_mem_cons.mp h
    cases g with
    | plain c =>
      show unescape (c :: gs.flatMap Glyph.written) = c :: gs.flatMap Glyph.meant
      rw [unescape_plain hg.2, ih hgs]
    | escaped c =>
      show unescape ('\\' :: c :: gs.flatMap Glyph.written) = _
      rw [unescape, ih hgs]
      by_cases hc : c = '\\' ∨ c = '\'' ∨ c = '"' <;> simp [Glyph.meant, hc, or_assoc]

/-! ## Every character has a glyph -/

theorem escapeFor_eq_glyphs (quote : Char) (cs : List Char) :
    escapeFor quote cs = (cs.map (Glyph.ofChar quote)).flatMap Glyph.written := by
  rw [escapeFor, List.flatMap_map]
  refine congrArg (cs.flatMap ·) (funext fun c => ?_)
  unfold Glyph.ofChar
  split <;> rfl

theorem ofChar_fits (hq : quote = '"' ∨ quote = '\'') (c : Char) :
    (Glyph.ofChar quote c).Fits quote := by
  unfold Glyph.ofChar
  split
  · next hc =>
    rcases hc with rfl | rfl
    · exact (by decide : '\\' ≠ '\n')
    · rcases hq with rfl | rfl
      · exact (by decide : '"' ≠ '\n')
      · exact (by decide : '\'' ≠ '\n')
  · next hc =>
    obtain ⟨hb, hne⟩ := not_or.mp hc
    exact ⟨hne, hb⟩

theorem ofChar_meant (hq : quote = '"' ∨ quote = '\'') (c : Char) :
    (Glyph.ofChar quote c).meant = [c] := by
  unfold Glyph.ofChar
  split
  · next hc =>
    have hdropped : c = '\\' ∨ c = '\'' ∨ c = '"' := by
      rcases hc with rfl | rfl
      · exact .inl rfl
      · exact .inr hq.symm
    exact if_pos hdropped
  · rfl

/-- Escaped characters are followed to the quote behind them. -/
theorem quotedRun_escapeFor (hq : quote = '"' ∨ quote = '\'') (cs rest : List Char) :
    quotedRun quote (escapeFor quote cs ++ quote :: rest) =
      ((escapeFor quote cs).length + 1, true) := by
  rw [escapeFor_eq_glyphs]
  exact quotedRun_glyphs (ne_backslash_of_quote hq)
    (List.forall_mem_map.mpr fun c _ => ofChar_fits hq c) rest

/-- Escaped characters mean themselves. -/
theorem unescape_escapeFor (hq : quote = '"' ∨ quote = '\'') (cs : List Char) :
    unescape (escapeFor quote cs) = cs := by
  rw [escapeFor_eq_glyphs, unescape_glyphs (List.forall_mem_map.mpr fun c _ => ofChar_fits hq c),
    List.flatMap_map]
  simp only [ofChar_meant hq, List.flatMap_singleton']

end ExprLang.Lexer
