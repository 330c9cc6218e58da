import ExprLang.Node.Parser
import ExprLang.Proofs.Lexer.Unfold
import ExprLang.Proofs.Lexer.Written

/-! Every string has a literal, between quotes of either kind, and every literal reads as its
glyphs mean. -/

namespace ExprLang

/-- A string between quotes of this kind, its own ones and its backslashes escaped. -/
def quoted (quote : Char) (s : String) : String :=
  String.ofList (quote :: (Lexer.escapeFor quote s.toList ++ [quote]))

namespace Lexer

/-- Glyphs between quotes, and the content that they mean. -/
inductive Literal : List Char → String → Prop
  | intro {quote : Char} {gs : List Glyph} (isQuote : quote = '"' ∨ quote = '\'')
      (fits : ∀ g ∈ gs, g.Fits quote) :
      Literal (quote :: (gs.flatMap Glyph.written ++ [quote]))
        (String.ofList (gs.flatMap Glyph.meant))

variable {o : Nat} {c : Char} {cs rest : List Char} {content : String} {l : Lexeme}
  {ls : List Lexeme}

theorem literal_quoted {quote : Char} (hq : quote = '"' ∨ quote = '\'') (s : String) :
    Literal (quoted quote s).toList s := by
  have hfits : ∀ g ∈ s.toList.map (Glyph.ofChar quote), g.Fits quote :=
    List.forall_mem_map.mpr fun c _ => ofChar_fits hq c
  have hmeant : (s.toList.map (Glyph.ofChar quote)).flatMap Glyph.meant = s.toList := by
    simp only [List.flatMap_map, ofChar_meant hq, List.flatMap_singleton']
  have h := Literal.intro hq hfits
  rw [hmeant, ← escapeFor_eq_glyphs, String.ofList_toList] at h
  rwa [quoted, String.toList_ofList]

theorem isQuote_iff : (c == '"' || c == '\'') = true ↔ c = '"' ∨ c = '\'' := by simp

/-- A literal is found whatever text follows it. -/
theorem next_literal (h : Literal cs content) (o : Nat) (rest : List Char) :
    next o (cs ++ rest) = .found ⟨.text content, ⟨o, o + byteLength cs⟩⟩ rest := by
  obtain @⟨quote, gs, hq, hfits⟩ := h
  have hrun := quotedRun_glyphs (ne_backslash_of_quote hq) hfits rest
  have hspace : isSpace quote = false := by rcases hq with rfl | rfl <;> rfl
  have htoken : tokenAt quote ((gs.flatMap Glyph.written ++ [quote]) ++ rest) =
      (some (.text (String.ofList (gs.flatMap Glyph.meant))),
        (gs.flatMap Glyph.written ++ [quote]).length) := by
    rw [List.append_assoc, List.singleton_append,
      tokenAt_quoted (startsNumber_quote hq _) (isQuote_iff.mpr hq) hrun, Nat.add_sub_cancel,
      List.take_left, unescape_glyphs hfits, List.length_append]
    rfl
  exact next_found hspace htoken

/-- Every string that is found is a literal. -/
theorem tokenAt_text {n : Nat} (h : tokenAt c cs = (some (.text content), n)) :
    Literal (c :: cs.take n) content := by
  -- Only the second way finds a string.
  rcases tokenAt_cases h with hn | ⟨hn, ⟨hq, hquoted⟩ | ⟨hq, hw | ⟨hw, s, hs⟩⟩⟩
  · rw [tokenAt_number hn, Prod.mk.injEq, Option.some.injEq] at h
    obtain ⟨h, -⟩ := h
    split at h <;> cases h
  · rw [tokenAt_quoted hn hq hquoted] at h
    cases h
    obtain ⟨gs, rest, hfits, rfl, rfl⟩ := glyphs_of_quotedRun hquoted
    rw [Nat.add_sub_cancel, List.take_left, unescape_glyphs hfits, List.append_cons,
      List.take_left' (by simp)]
    exact .intro (isQuote_iff.mp hq) hfits
  · rw [tokenAt_word hn hq hw, Prod.mk.injEq, Option.some.injEq, wordToken] at h
    obtain ⟨h, -⟩ := h
    split at h <;> cases h
  · rw [tokenAt_symbol hn hq hw hs] at h
    cases h

/-- Every token of a text is found where its span says. -/
theorem lexFrom_split (h : lexFrom o cs = .ok ls) (hl : l ∈ ls) :
    ∃ front c body after, cs = front ++ c :: (body ++ after) ∧
      tokenAt c (body ++ after) = (some l.token, body.length) ∧
      l.span = ⟨o + byteLength front, o + byteLength front + byteLength (c :: body)⟩ := by
  fun_induction lexFrom o cs generalizing ls with
  | case1 =>
    cases h
    cases hl
  | case2 => cases h
  | case3 o cs first rest hn ls' hr ih =>
    cases h
    obtain ⟨spaces, c, body, hcs, -, -, htoken, hspan⟩ := next_split hn
    rcases List.mem_cons.mp hl with rfl | hl
    · exact ⟨spaces, c, body, rest, hcs, htoken, hspan⟩
    · obtain ⟨front, d, body', after, hrest, htoken', hspan'⟩ := ih hr hl
      refine ⟨spaces ++ c :: (body ++ front), d, body', after, ?_, htoken', ?_⟩
      · rw [hcs, hrest]
        simp
      · rw [hspan', hspan]
        simp only [byteLength_append, byteLength, Nat.add_assoc]
  | case4 => cases h

end Lexer

/-- A string between quotes is the only token of the text that it makes up, it is the tree of that
text, and it is the first token of every text that starts with it. Conversely every string that is
found among the tokens of a text is the content of a literal: it is what stands between the quotes,
but for the backslashes that stand before a backslash or a quote. -/
theorem string_literals :
    (∀ (quote : Char) (s : String), quote = '"' ∨ quote = '\'' →
      tokenize (quoted quote s) = .ok [⟨.text s, ⟨0, (quoted quote s).utf8ByteSize⟩⟩] ∧
      parseExpression (quoted quote s) = .ok (.text s) ∧
      ∀ rest : String, Lexer.next 0 (quoted quote s ++ rest).toList =
        .found ⟨.text s, ⟨0, (quoted quote s).utf8ByteSize⟩⟩ rest.toList) ∧
    ∀ (source : String) (ls : List Lexeme), tokenize source = .ok ls →
      ∀ (content : String) (span : Span), ⟨.text content, span⟩ ∈ ls →
        ∃ before literal after : String, source = before ++ literal ++ after ∧
          span = ⟨before.utf8ByteSize, (before ++ literal).utf8ByteSize⟩ ∧
          Lexer.Literal literal.toList content := by
  constructor
  · intro quote s hq
    have hfound (rest : List Char) := Lexer.next_literal (Lexer.literal_quoted hq s) 0 rest
    rw [Lexer.byteLength_toList, Nat.zero_add] at hfound
    have htokens : tokenize (quoted quote s) =
        .ok [⟨.text s, ⟨0, (quoted quote s).utf8ByteSize⟩⟩] := by
      have hnil := hfound []
      rw [List.append_nil] at hnil
      rw [tokenize, Lexer.lexFrom_found hnil, Lexer.lexFrom_finished rfl]
    refine ⟨htokens, ?_, fun rest => ?_⟩
    · rw [parseExpression, htokens]
      rfl
    · rw [String.toList_append]
      exact hfound rest.toList
  · intro source ls hls content span hmem
    obtain ⟨front, c, body, after, hsource, htoken, hspan⟩ := Lexer.lexFrom_split hls hmem
    have hliteral := Lexer.tokenAt_text htoken
    rw [List.take_left] at hliteral
    refine ⟨String.ofList front, String.ofList (c :: body), String.ofList after, ?_, ?_, ?_⟩
    · rw [← String.ofList_toList (s := source), hsource, ← String.ofList_append,
        ← String.ofList_append]
      simp
    · rw [← String.ofList_append, ← Lexer.byteLength_toList, ← Lexer.byteLength_toList,
        String.toList_ofList, String.toList_ofList, Lexer.byteLength_append]
      simpa using hspan
    · rwa [String.toList_ofList]

/-- Both quotes, a backslash, the end of a line and a marker within one string, and a backslash that
is kept. -/
theorem string_literals_hold :
    (tokenize "'it\\'s\n\\\\\"$\x7b'" = .ok [⟨.text "it's\n\\\"$\x7b", ⟨0, 13⟩⟩] ∧
      parseExpression "'it\\'s\n\\\\\"$\x7b'" = .ok (.text "it's\n\\\"$\x7b")) ∧
    ∃ before literal after : String, "a+'\\d\\''" = before ++ literal ++ after ∧
      (⟨2, 8⟩ : Span) = ⟨before.utf8ByteSize, (before ++ literal).utf8ByteSize⟩ ∧
      Lexer.Literal literal.toList "\\d'" := by
  have hquoted : quoted '\'' "it's\n\\\"$\x7b" = "'it\\'s\n\\\\\"$\x7b'" := by decide
  obtain ⟨htokens, htree, -⟩ := string_literals.1 '\'' "it's\n\\\"$\x7b" (.inr rfl)
  rw [hquoted] at htokens htree
  have hliteral : Lexer.next 2 ['\'', '\\', 'd', '\\', '\'', '\''] =
      .found ⟨.text "\\d'", ⟨2, 8⟩⟩ [] := rfl
  have hsource : tokenize "a+'\\d\\''" = .ok
      [⟨.name "a", ⟨0, 1⟩⟩, ⟨.symbol .plus, ⟨1, 2⟩⟩, ⟨.text "\\d'", ⟨2, 8⟩⟩] :=
    Lexer.lexFrom_cons rfl (Lexer.lexFrom_cons rfl (Lexer.lexFrom_cons hliteral
      (Lexer.lexFrom_finished rfl)))
  exact ⟨⟨htokens, htree⟩, string_literals.2 _ _ hsource _ _ (by decide)⟩

end ExprLang
