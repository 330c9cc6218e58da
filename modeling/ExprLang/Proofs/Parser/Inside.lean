import ExprLang.Fault
import ExprLang.Proofs.Lexer.Balanced
import ExprLang.Proofs.Parser.Refusal
import ExprLang.Proofs.Template

/-! Errors point into the text that is read: the places of tokens, of the ends of segments and of the
text are all between characters of the text, and so are the least ranges around two of them. -/

namespace ExprLang

/-- A range that can be cut out of a text: it ends within the text, and does so between two
characters, as it starts. -/
structure Span.Inside (text : String) (s : Span) : Prop where
  ordered : s.start ≤ s.stop
  bounded : s.stop ≤ text.utf8ByteSize
  start : String.Pos.Raw.IsValid text ⟨s.start⟩
  stop : String.Pos.Raw.IsValid text ⟨s.stop⟩

namespace Lexer

variable {o d n stop : Nat} {c : Char} {whole front cs rest : List Char} {l : Lexeme}
  {e : SyntaxError} {s : Segment} {a b : Span}

/-- After its first `o` bytes the text goes on with `cs`. -/
def GoesOn (whole : List Char) (o : Nat) (cs : List Char) : Prop :=
  ∃ front, whole = front ++ cs ∧ byteLength front = o

/-- A range from one place between characters to another one behind it. -/
structure Between (whole : List Char) (s : Span) : Prop where
  ordered : s.start ≤ s.stop
  start : ∃ cs, GoesOn whole s.start cs
  stop : ∃ cs, GoesOn whole s.stop cs

theorem GoesOn.refl (whole : List Char) : GoesOn whole 0 whole := ⟨[], rfl, rfl⟩

theorem GoesOn.skip (h : GoesOn whole o (front ++ rest)) :
    GoesOn whole (o + byteLength front) rest := by
  obtain ⟨before, rfl, rfl⟩ := h
  exact ⟨before ++ front, (List.append_assoc _ _ _).symm, byteLength_append _ _⟩

theorem GoesOn.end (h : GoesOn whole o cs) : GoesOn whole (o + byteLength cs) [] := by
  rw [← List.append_nil cs] at h
  exact h.skip

theorem GoesOn.between (h : GoesOn whole o (front ++ rest)) :
    Between whole ⟨o, o + byteLength front⟩ :=
  ⟨Nat.le_add_right _ _, ⟨_, h⟩, ⟨_, h.skip⟩⟩

theorem GoesOn.point (h : GoesOn whole o cs) : Between whole (.point o) :=
  ⟨Nat.le_refl _, ⟨_, h⟩, ⟨_, h⟩⟩

/-- Each end of a least range is an end of one of the two. -/
theorem Between.merge (ha : Between whole a) (hb : Between whole b) : Between whole (a.merge b) where
  ordered := Nat.le_trans (Nat.min_le_left _ _) (Nat.le_trans ha.ordered (Nat.le_max_left _ _))
  start := by
    rcases Nat.le_total a.start b.start with h | h
    · simpa only [Span.merge, Nat.min_eq_left h] using ha.start
    · simpa only [Span.merge, Nat.min_eq_right h] using hb.start
  stop := by
    rcases Nat.le_total a.stop b.stop with h | h
    · simpa only [Span.merge, Nat.max_eq_right h] using hb.stop
    · simpa only [Span.merge, Nat.max_eq_left h] using ha.stop

theorem GoesOn.isValid {text : String} (h : GoesOn text.toList o cs) :
    String.Pos.Raw.IsValid text ⟨o⟩ ∧ o ≤ text.utf8ByteSize := by
  obtain ⟨front, htext, rfl⟩ := h
  have hsplit : text = String.ofList front ++ String.ofList cs := by
    rw [← String.ofList_append, ← htext, String.ofList_toList]
  have hlength : byteLength front = (String.ofList front).utf8ByteSize := by
    rw [← byteLength_toList, String.toList_ofList]
  rw [hsplit, hlength]
  refine ⟨?_, ?_⟩
  · exact String.Pos.Raw.isValid_iff_exists_append.mpr ⟨_, _, rfl, rfl⟩
  · rw [String.utf8ByteSize_append]
    exact Nat.le_add_right _ _

theorem Between.inside {text : String} (h : Between text.toList a) : a.Inside text := by
  obtain ⟨_, hstart⟩ := h.start
  obtain ⟨_, hstop⟩ := h.stop
  exact ⟨h.ordered, hstop.isValid.2, hstart.isValid.1, hstop.isValid.1⟩

/-! ## Tokens -/

/-- The place of a token, or of what is none, and the text behind it. -/
theorem next_between (h : GoesOn whole o cs) :
    match next o cs with
    | .finished stop => Between whole (.point stop)
    | .found l rest => Between whole l.span ∧ GoesOn whole l.span.stop rest
    | .refused e => Between whole e.span := by
  rw [← List.takeWhile_append_dropWhile (p := isSpace) (l := cs)] at h
  have hspaces := h.skip
  unfold next
  dsimp only
  cases hdrop : cs.dropWhile isSpace with
  | nil =>
    rw [hdrop] at hspaces
    exact hspaces.point
  | cons c r =>
    rw [hdrop, ← List.take_append_drop (tokenAt c r).2 r, ← List.cons_append] at hspaces
    dsimp only
    cases htoken : (tokenAt c r).1 with
    | some token => exact ⟨hspaces.between, hspaces.skip⟩
    | none => exact hspaces.between

theorem finished_between (h : GoesOn whole o cs) (hn : next o cs = .finished stop) :
    Between whole (.point stop) := by
  have := next_between h
  rwa [hn] at this

theorem found_between (h : GoesOn whole o cs) (hn : next o cs = .found l rest) :
    Between whole l.span ∧ GoesOn whole l.span.stop rest := by
  have := next_between h
  rwa [hn] at this

theorem refused_between (h : GoesOn whole o cs) (hn : next o cs = .refused e) :
    Between whole e.span := by
  have := next_between h
  rwa [hn] at this

theorem lexFrom_between (h : GoesOn whole o cs) :
    match lexFrom o cs with
    | .ok ls => ∀ l ∈ ls, Between whole l.span
    | .error e => Between whole e.span := by
  fun_induction lexFrom o cs with
  | case1 => exact List.forall_mem_nil _
  | case2 o cs e hn => exact refused_between h hn
  | case3 o cs l rest hn ls hr ih =>
    obtain ⟨hl, hrest⟩ := found_between h hn
    have hls := ih hrest
    rw [hr] at hls
    exact List.forall_mem_cons.mpr ⟨hl, hls⟩
  | case4 o cs l rest hn e he ih =>
    have herror := ih (found_between h hn).2
    rw [he] at herror
    exact herror

/-- A closing brace is one byte long. -/
theorem span_rBrace (h : next o cs = .found l rest) (hl : l.token = .symbol .rBrace) :
    l.span.stop = l.span.start + 1 := by
  obtain ⟨spaces, rfl, hspaces⟩ := next_rBrace h hl
  cases hn : next o spaces with
  | finished stop =>
    rw [next_brace hn] at h
    cases h
    rfl
  | refused e =>
    rw [lexFrom_refused hn] at hspaces
    cases hspaces
  | found l' rest' =>
    rw [lexFrom_found hn] at hspaces
    split at hspaces <;> cases hspaces

theorem segmentFrom_between (h : GoesOn whole o cs) :
    match segmentFrom o d cs with
    | .ok s => (∀ l ∈ s.lexemes, Between whole l.span) ∧ Between whole ⟨s.stop, s.stop + 1⟩ ∧
        GoesOn whole (s.stop + 1) s.rest
    | .error e => Between whole e.span := by
  fun_induction segmentFrom o d cs with
  | case1 o d cs stop hn => exact finished_between h hn
  | case2 o d cs e hn => exact refused_between h hn
  | case3 o d cs l rest hn hbrace =>
    obtain ⟨hl, hrest⟩ := found_between h hn
    have hstop := span_rBrace hn hbrace.1
    rw [hstop] at hrest
    refine ⟨List.forall_mem_nil _, ?_, hrest⟩
    rw [show (⟨l.span.start, l.span.start + 1⟩ : Span) = l.span by rw [← hstop]]
    exact hl
  | case4 o d cs l rest hn hbrace deeper s hs ih =>
    obtain ⟨hl, hrest⟩ := found_between h hn
    have htail := ih hrest
    rw [hs] at htail
    exact ⟨List.forall_mem_cons.mpr ⟨hl, htail.1⟩, htail.2⟩
  | case5 o d cs l rest hn hbrace deeper e he ih =>
    have herror := ih (found_between h hn).2
    rw [he] at herror
    exact herror

end Lexer

/-! ## Expressions -/

open Lexer (Between GoesOn)

variable {ts : List Lexeme} {eof : Span} {e : SyntaxError} {whole : List Char}

theorem Lexeme.map_shift_zero (ts : List Lexeme) : ts.map (·.shift 0) = ts := by
  induction ts with
  | nil => rfl
  | cons t ts ih => rw [List.map_cons, ih]; rfl

/-- A refusal points to a token, to the end, or to a least range around such places. -/
theorem parseTokens_between (hts : ∀ t ∈ ts, Between whole t.span) (heof : Between whole eof)
    (h : parseTokens ts eof = .error e) : Between whole e.span := by
  let c : Parser.Copying :=
    { distance := 0
      tail := []
      eof := eof
      eof' := eof
      Pairs := fun a b => a = b ∧ Between whole a
      merge := by
        rintro a b _ _ ⟨rfl, ha⟩ ⟨rfl, hb⟩
        exact ⟨rfl, ha.merge hb⟩
      edge := ⟨rfl, heof⟩
      brace := nofun }
  have hcopies : parseTokens (ts.map (·.shift c.distance)) c.eof' = .error e := by
    rw [Lexeme.map_shift_zero]
    exact h
  obtain ⟨e', _, hsame, hspan⟩ :=
    parseTokens_refused_beside (c := c) (fun t ht => ⟨rfl, hts t ht⟩) (.inl rfl) hcopies
  rw [← hsame]
  exact hspan

/-! ## Texts with segments -/

namespace Template

variable {o : Nat} {c : Char} {literal cs rest rest' : List Char} {m : Marker}

/-- What a text starts with that does not go on with a letter. -/
theorem head_spelling :
    match head c rest with
    | .escaped m rest' => c :: rest = '\\' :: (m.spelling ++ rest')
    | .opening m rest' => c :: rest = m.spelling ++ rest'
    | .letter d rest' => c = d ∧ rest = rest' := by
  fun_cases head c rest with
  | case1 | case2 | case3 | case4 => rfl
  | case5 => exact ⟨rfl, rfl⟩

theorem byteLength_spelling (m : Marker) : Lexer.byteLength m.spelling = 2 := by
  cases m <;> rfl

theorem escaped_goesOn (h : GoesOn whole o (c :: rest)) (hc : head c rest = .escaped m rest') :
    GoesOn whole (o + 3) rest' := by
  have hspelling := @head_spelling c rest
  rw [hc] at hspelling
  have hlength : Lexer.byteLength ('\\' :: m.spelling) = 3 := by
    rw [Lexer.byteLength, byteLength_spelling]
    rfl
  rw [show c :: rest = ('\\' :: m.spelling) ++ rest' from hspelling] at h
  rw [← hlength]
  exact h.skip

theorem opening_goesOn (h : GoesOn whole o (c :: rest)) (hc : head c rest = .opening m rest') :
    GoesOn whole (o + 2) rest' := by
  have hspelling := @head_spelling c rest
  rw [hc] at hspelling
  rw [show c :: rest = m.spelling ++ rest' from hspelling] at h
  rw [← byteLength_spelling m]
  exact h.skip

theorem letter_goesOn {d : Char} (h : GoesOn whole o (c :: rest))
    (hc : head c rest = .letter d rest') : GoesOn whole (o + d.utf8Size) rest' := by
  have hspelling := @head_spelling c rest
  rw [hc] at hspelling
  obtain ⟨rfl, rfl⟩ := hspelling
  exact GoesOn.skip (show GoesOn whole o ([c] ++ rest) from h)

theorem partsFrom_between (h : GoesOn whole o cs) (he : partsFrom o literal cs = .error e) :
    Between whole e.span := by
  fun_induction partsFrom o literal cs with
  | case1 => cases he
  | case2 o literal c rest m rest' hc ih => exact ih (escaped_goesOn h hc) he
  | case3 o literal c rest d rest' hc ih => exact ih (letter_goesOn h hc) he
  | case4 o literal c rest m rest' hc e' hs =>
    cases he
    have hsegment := Lexer.segmentFrom_between (d := 0) (opening_goesOn h hc)
    rwa [hs] at hsegment
  | case5 o literal c rest m rest' hc segment hs e' hnode =>
    cases he
    have hsegment := Lexer.segmentFrom_between (d := 0) (opening_goesOn h hc)
    rw [hs] at hsegment
    exact parseTokens_between hsegment.1 hsegment.2.1 hnode
  | case6 o literal c rest m rest' hc segment hs node hnode e' hmore ih =>
    cases he
    have hsegment := Lexer.segmentFrom_between (d := 0) (opening_goesOn h hc)
    rw [hs] at hsegment
    exact ih hsegment.2.2 hmore
  | case7 => cases he

/-- Parts are refused as a whole. -/
theorem assemble_error {stop : Nat} {parts : List Node} (h : assemble stop parts = .error e) :
    e.span = ⟨0, stop⟩ := by
  unfold assemble at h
  split at h
  any_goals cases h
  split at h <;> cases h
  rfl

end Template

/-! ## Errors -/

theorem parseTemplate_between {text : String} (h : parseTemplate text = .error e) :
    Between text.toList e.span := by
  rw [parseTemplate] at h
  split at h
  · have hall : Between text.toList ⟨0, text.utf8ByteSize⟩ := by
      have := (GoesOn.refl text.toList).end
      rw [Nat.zero_add, Lexer.byteLength_toList] at this
      exact ⟨Nat.zero_le _, ⟨_, .refl _⟩, ⟨_, this⟩⟩
    rw [Template.assemble_error h]
    exact hall
  · next hparts =>
    cases h
    exact Template.partsFrom_between (.refl _) hparts

theorem tokenize_between {text : String} :
    match tokenize text with
    | .ok ls => ∀ l ∈ ls, Between text.toList l.span
    | .error e => Between text.toList e.span :=
  Lexer.lexFrom_between (.refl _)

theorem parseExpression_between {text : String} (h : parseExpression text = .error e) :
    Between text.toList e.span := by
  have htokens := @tokenize_between text
  rw [parseExpression] at h
  split at h
  · next ts hts =>
    rw [hts] at htokens
    have hend : Between text.toList (.point text.utf8ByteSize) := by
      have := (GoesOn.refl text.toList).end
      rw [Nat.zero_add, Lexer.byteLength_toList] at this
      exact this.point
    exact parseTokens_between htokens hend h
  · next hts =>
    cases h
    rwa [hts] at htokens

theorem tokenizeSegment_between {before text : String}
    (h : tokenizeSegment (before ++ text) before.utf8ByteSize = .error e) :
    Between (before ++ text).toList e.span := by
  have hbefore : GoesOn (before ++ text).toList before.utf8ByteSize text.toList :=
    ⟨before.toList, String.toList_append, Lexer.byteLength_toList before⟩
  have hsegment := Lexer.segmentFrom_between (d := 0) hbefore
  rw [Lexer.tokenizeSegment_append] at h
  split at h
  · cases h
  · next hs =>
    cases h
    rwa [hs] at hsegment

/-- Every error of reading a text, as an expression, as a text with segments, as tokens or as a
segment from some place on, has a place, and this can be cut out of the text. -/
theorem syntax_errors_inside (text : String) (e : SyntaxError) :
    (parseTemplate text = .error e →
      (Fault.parse e).span? = some e.span ∧ e.span.Inside text) ∧
    (parseExpression text = .error e →
      (Fault.parse e).span? = some e.span ∧ e.span.Inside text) ∧
    (tokenize text = .error e →
      (Fault.parse e).span? = some e.span ∧ e.span.Inside text) ∧
    ∀ before : String, tokenizeSegment (before ++ text) before.utf8ByteSize = .error e →
      (Fault.parse e).span? = some e.span ∧ e.span.Inside (before ++ text) := by
  refine ⟨fun h => ?_, fun h => ?_, fun h => ?_, fun before h => ?_⟩
  · exact ⟨rfl, (parseTemplate_between h).inside⟩
  · exact ⟨rfl, (parseExpression_between h).inside⟩
  · have htokens := @tokenize_between text
    rw [h] at htokens
    exact ⟨rfl, htokens.inside⟩
  · exact ⟨rfl, (tokenizeSegment_between h).inside⟩

/-- Trees cannot be compared with errors, but errors can. -/
theorem error_of_error? {α : Type} {x : Except SyntaxError α}
    (h : (match x with | .ok _ => none | .error e => some e) = some e) : x = .error e := by
  cases x with
  | ok a => cases h
  | error e' => rw [Option.some.inj h]

/-- Behind a letter of two bytes, a sum without its second summand; and that letter where a token should
start. -/
theorem misread_umlauts_inside :
    parseTemplate "ü$\x7b1 +\x7dé" = .error ⟨.expected "expression" none, ⟨7, 8⟩⟩ ∧
      (⟨7, 8⟩ : Span).Inside "ü$\x7b1 +\x7dé" ∧
      parseExpression "1 é" = .error ⟨.badCharacter "é", ⟨2, 4⟩⟩ ∧
      tokenize "1 é" = .error ⟨.badCharacter "é", ⟨2, 4⟩⟩ ∧ (⟨2, 4⟩ : Span).Inside "1 é" ∧
      tokenizeSegment ("ü$\x7b" ++ "1") "ü$\x7b".utf8ByteSize = .error ⟨.openSegment, ⟨5, 5⟩⟩ ∧
      (⟨5, 5⟩ : Span).Inside ("ü$\x7b" ++ "1") := by
  have hsum : parseTemplate "ü$\x7b1 +\x7dé" = .error ⟨.expected "expression" none, ⟨7, 8⟩⟩ :=
    error_of_error? (by decide +kernel)
  have hparse : parseExpression "1 é" = .error ⟨.badCharacter "é", ⟨2, 4⟩⟩ :=
    error_of_error? (by decide +kernel)
  have htokens : tokenize "1 é" = .error ⟨.badCharacter "é", ⟨2, 4⟩⟩ :=
    error_of_error? (by decide +kernel)
  have hopen : tokenizeSegment ("ü$\x7b" ++ "1") "ü$\x7b".utf8ByteSize =
      .error ⟨.openSegment, ⟨5, 5⟩⟩ := error_of_error? (by decide +kernel)
  obtain ⟨hinside, -, -, -⟩ := syntax_errors_inside "ü$\x7b1 +\x7dé" _
  obtain ⟨-, -, htoken, -⟩ := syntax_errors_inside "1 é" ⟨.badCharacter "é", ⟨2, 4⟩⟩
  obtain ⟨-, -, -, hsegment⟩ := syntax_errors_inside "1" ⟨.openSegment, ⟨5, 5⟩⟩
  exact ⟨hsum, (hinside hsum).2, hparse, htokens, (htoken htokens).2, hopen,
    (hsegment "ü$\x7b" hopen).2⟩

end ExprLang
