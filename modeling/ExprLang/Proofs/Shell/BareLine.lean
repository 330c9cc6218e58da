import ExprLang.Proofs.Action
import ExprLang.Proofs.Lexer.Balanced
import ExprLang.Proofs.Template
import ExprLang.Proofs.Transparency

/-! Lines of a session without marks. They are put into a segment as they stand, so that a brace in them
which closes nothing ends the segment. Other lines are read as bare expressions are. -/

namespace ExprLang

namespace Template

variable {offset : Nat} {literal cs rest : List Char} {c : Char} {m : Marker} {n : Node}

theorem marked_of_append {front : List Char} (h : marked (front ++ cs) = false) :
    marked cs = false := by
  induction front with
  | nil => exact h
  | cons c front ih => exact ih (Bool.or_eq_false_iff.mp h).2

/-- A closing brace is no part of a marker. -/
theorem marked_append_brace (h : marked cs = false) : marked (cs ++ ['\x7d']) = false := by
  induction cs with
  | nil => rfl
  | cons c cs ih =>
    obtain ⟨hopens, hcs⟩ := Bool.or_eq_false_iff.mp h
    refine Bool.or_eq_false_iff.mpr ⟨?_, ih hcs⟩
    refine Bool.eq_false_iff.mpr fun hmarker => ?_
    obtain ⟨hc, hhead⟩ := opens_cons hmarker
    cases cs with
    | nil => cases hhead
    | cons d cs =>
      cases hhead
      rcases hc with rfl | rfl <;> cases hopens

/-- What was read where a text goes on with a segment. -/
theorem partsFrom_opening_ok {parts : List Node} (hc : head c cs = .opening m rest)
    (h : partsFrom offset literal (c :: cs) = .ok parts) :
    ∃ segment node more, Lexer.segmentFrom (offset + 2) 0 rest = .ok segment ∧
      parseTokens segment.lexemes ⟨segment.stop, segment.stop + 1⟩ = .ok node ∧
      partsFrom (segment.stop + 1) [] segment.rest = .ok more ∧
      parts = flush literal (m.wrap node :: more) := by
  rw [partsFrom] at h
  split at h
  · next h' => rw [hc] at h'; cases h'
  · next h' => rw [hc] at h'; cases h'
  · next h' =>
    rw [hc] at h'
    cases h'
    split at h
    · cases h
    · next segment hs =>
      split at h
      · cases h
      · next node hnode =>
        split at h
        · cases h
        · next more hmore =>
          cases h
          exact ⟨segment, node, more, hs, hnode, hmore, rfl⟩

end Template

open Template

/-- Some brace of the line closes nothing, and an expression stands before it. -/
def StrayBrace (line : String) : Prop :=
  ∃ before after body, line = before ++ "\x7d" ++ after ∧ parseExpression before = .ok body

theorem parseExpression_error {text : String} {e : SyntaxError}
    (h : (match parseExpression text with | .ok _ => none | .error e => some e) = some e) :
    parseExpression text = .error e := by
  split at h
  · cases h
  · next hp => rw [hp, Option.some.inj h]

section Segments
variable {m : Marker} {line before after : String} {n body : Node}

theorem toList_stray (before after : String) :
    (before ++ "\x7d" ++ after).toList = before.toList ++ '\x7d' :: after.toList := by
  rw [String.toList_append, String.toList_append, List.append_assoc]
  rfl

/-- A brace that closes nothing ends the segment, and the rest of the line is text. -/
theorem parseTemplate_stray (m : Marker) (hline : marked line.toList = false)
    (hsplit : line = before ++ "\x7d" ++ after) (h : parseExpression before = .ok body) :
    parseTemplate (String.ofList (m.spelling ++ line.toList ++ ['\x7d'])) =
      .ok (.template [m.wrap body, .plain (after ++ "\x7d")]) := by
  rw [hsplit, toList_stray] at hline
  have hafter : marked (after ++ "\x7d").toList = false := by
    rw [String.toList_append]
    exact marked_append_brace (Bool.or_eq_false_iff.mp (marked_of_append hline)).2
  have htext : m.spelling ++ line.toList ++ ['\x7d'] =
      m.spelling ++ before.toList ++ ['\x7d'] ++ (after ++ "\x7d").toList := by
    rw [hsplit, toList_stray, String.toList_append]
    simp only [List.append_assoc, List.cons_append, List.nil_append]
    rfl
  have hrest (offset : Nat) : partsFrom offset [] (after ++ "\x7d").toList =
      .ok [.plain (after ++ "\x7d")] := by
    rw [partsFrom_of_unmarked hafter, List.append_nil, flush_literal (by simp)]
  have hparts : partsFrom 0 [] (m.spelling ++ line.toList ++ ['\x7d']) =
      .ok [m.wrap body, .plain (after ++ "\x7d")] := by
    rw [htext, partsFrom_segment h hrest]
    rfl
  rw [parseTemplate, String.toList_ofList, hparts]
  cases m <;> rfl

/-- No expression has a brace that closes nothing. -/
theorem parseExpression_stray (hline : marked line.toList = false)
    (hstray : StrayBrace line) : parseExpression line ≠ .ok n := by
  obtain ⟨before, after, body, hsplit, hbody⟩ := hstray
  intro h
  have htemplate := parseTemplate_stray .dynamic hline hsplit hbody
  rw [parseTemplate_segment .dynamic line h] at htemplate
  cases htemplate
  exact parseExpression_wellFormed h

/-- A line in a segment is read as the expression that it is, or else as one that ends at a brace of the
line which closes nothing, and text. -/
theorem parseTemplate_wrapped
    (h : parseTemplate (String.ofList (m.spelling ++ line.toList ++ ['\x7d'])) = .ok n) :
    parseExpression line = .ok n ∨ StrayBrace line := by
  obtain ⟨c, cs, hcs, hc⟩ := head_opening m (line.toList ++ ['\x7d'])
  rw [parseTemplate, String.toList_ofList, List.append_assoc, hcs] at h
  split at h
  · next parts hparts =>
    obtain ⟨segment, node, more, hs, hnode, hmore, rfl⟩ := partsFrom_opening_ok hc hparts
    obtain ⟨source, hsource, hparsed⟩ := parseExpression_of_segmentFrom hs hnode
    rcases List.eq_nil_or_concat segment.rest with hrest | ⟨after, last, hrest⟩
    · rw [hrest] at hsource hmore
      rw [partsFrom] at hmore
      cases hmore
      obtain rfl : line = source := String.toList_injective (List.append_cancel_right hsource)
      cases m <;> cases h <;> exact .inl hparsed
    · rw [hrest, List.concat_eq_append, ← List.cons_append, ← List.append_assoc] at hsource
      refine .inr ⟨source, String.ofList after, node, String.toList_injective ?_, hparsed⟩
      rw [toList_stray, String.toList_ofList]
      exact (List.append_inj' hsource rfl).1
  · cases h

end Segments

namespace Session

variable {f : Factory} {w : World} {line : String}

/-- Builds the expression of a tree in the context of a world and reads it there. -/
def readTree (w : World) (text : String) (n : Node) : Outcome Value :=
  match Bound.capture host.classes w.context.bound n with
  | .error f => .fault f w
  | .ok b => (ValueExpr.parsed text n b none).read host (Evaluation.evaluator host) w

/-- The tree that the factory of the session gives for a line. -/
def lineTree (s : Session) (line : String) : Except Fault Node :=
  (Factory.parse (template line) s.factory).1

theorem opens_eq (cs : List Char) :
    opens cs = (Search.startsWith ['$', '\x7b'] cs || Search.startsWith ['#', '\x7b'] cs) := by
  have other {marker : List Char} (h : ∀ rest, cs ≠ marker ++ rest) :
      Search.startsWith marker cs = false :=
    Bool.eq_false_iff.mpr fun hprefix =>
      let ⟨rest, hrest⟩ := List.isPrefixOf_iff_prefix.mp hprefix
      h rest hrest.symm
  fun_cases opens cs with
  | case1 => rfl
  | case2 => rfl
  | case3 cs hdynamic hdeferred => rw [other hdynamic, other hdeferred, Bool.or_false]

/-- The session finds the marks that open segments. -/
theorem indexOf?_marker (cs : List Char) :
    ((Search.indexOf? ['$', '\x7b'] cs).isSome || (Search.indexOf? ['#', '\x7b'] cs).isSome) =
      marked cs := by
  induction cs with
  | nil => rfl
  | cons c cs ih =>
    rw [marked, ← ih, opens_eq, Search.indexOf?, Search.indexOf?]
    cases Search.startsWith ['$', '\x7b'] (c :: cs) <;>
      cases Search.startsWith ['#', '\x7b'] (c :: cs) <;> simp

theorem template_of_unmarked (h : marked line.toList = false) :
    template line = String.ofList (Marker.dynamic.spelling ++ line.toList ++ ['\x7d']) := by
  apply String.toList_injective
  rw [template, indexOf?_marker, h, String.toList_ofList]
  simp [Marker.spelling]

/-- A text is built and read, or refused as it is by the parser. -/
theorem evalTemplate_eq (hf : f.Reached) (w : World) (text : String) :
    (evalTemplate ⟨f, w⟩ text).1 =
        (match parseTemplate text with
        | .ok n => readTree w text n
        | .error e => .fault (.parse e) w) ∧
      (evalTemplate ⟨f, w⟩ text).2.world = (evalTemplate ⟨f, w⟩ text).1.final?.getD w := by
  have hbuilt := Factory.Reached.valueExpression_eq hf host.classes w.context text none
  simp only [evalTemplate, ExceptT.run]
  generalize Factory.valueExpression host.classes w.context text none f = built at hbuilt ⊢
  obtain ⟨built, f'⟩ := built
  obtain rfl : built = _ := hbuilt
  cases parseTemplate text with
  | error e => exact ⟨rfl, rfl⟩
  | ok n =>
    simp only [readTree, Except.mapError, bind, Except.bind, Factory.valueOf]
    cases Bound.capture host.classes w.context.bound n with
    | error e => exact ⟨rfl, rfl⟩
    | ok b =>
      dsimp only [Except.map]
      cases (ValueExpr.parsed text n b none).read host (Evaluation.evaluator host) w <;>
        exact ⟨rfl, rfl⟩

/-- The session after an entry. -/
def enter (s : Session) : Entry → Session
  | .line text => (s.evalLine text).2
  | .reclaim => s.reclaim

theorem factory_reached_enter {s : Session} (hs : s.factory.Reached) (entry : Entry) :
    (s.enter entry).factory.Reached := by
  cases entry with
  | line text =>
    obtain ⟨r, v, f, g, h, -, hf, -⟩ := evalTemplate_spec hs hs s.world (template text)
    show (s.evalTemplate (template text)).2.factory.Reached
    rw [h]
    exact hf
  | reclaim => exact hs.reclaimAll

/-- Every state of a session has a factory that a program can come to have. -/
theorem factory_reached (settings : Settings) (entries : List Entry) :
    (entries.foldl enter (ofSettings settings)).factory.Reached := by
  have hall {s : Session} (hs : s.factory.Reached) : (entries.foldl enter s).factory.Reached := by
    induction entries generalizing s with
    | nil => exact hs
    | cons entry rest ih => exact ih (factory_reached_enter hs entry)
  exact hall (.start _)

/-- The session reads the line exactly if it is a bare expression. Then the line has the outcome of that
expression in the context of the session, and else it is refused and nothing changes. -/
structure ReadsBare (s : Session) (line : String) : Prop where
  read : (∃ n, s.lineTree line = .ok n) ↔ ∃ n, parseExpression line = .ok n
  outcome : ∀ n, parseExpression line = .ok n →
    (s.evalLine line).1 = readTree s.world (template line) n
  refused : ∀ e, parseExpression line = .error e →
    ∃ e', (s.evalLine line).1 = .fault (.parse e') s.world
  world : (s.evalLine line).2.world = (s.evalLine line).1.final?.getD s.world

theorem parseTemplate_template (hline : marked line.toList = false) (hstray : ¬StrayBrace line)
    (n : Node) : parseTemplate (template line) = .ok n ↔ parseExpression line = .ok n := by
  rw [template_of_unmarked hline]
  exact ⟨fun h => (parseTemplate_wrapped h).resolve_right hstray,
    parseTemplate_segment .dynamic line⟩

/-- A line without marks is read as a bare expression, unless an expression stands before a brace of it
that closes nothing. Such a line is the value of the expression with the rest of the line as text. -/
theorem reads_bare_iff {s : Session} (hs : s.factory.Reached) (hline : marked line.toList = false) :
    (s.ReadsBare line ↔ ¬StrayBrace line) ∧
      ∀ before after body, line = before ++ "\x7d" ++ after → parseExpression before = .ok body →
        (s.evalLine line).1 =
          readTree s.world (template line) (.template [.dynamic body, .plain (after ++ "\x7d")]) := by
  have htree : s.lineTree line = (parseTemplate (template line)).mapError Fault.parse :=
    hs.parse_eq (template line)
  obtain ⟨heval, hworld⟩ := evalTemplate_eq hs s.world (template line)
  have hrest (before after : String) (body : Node) (hsplit : line = before ++ "\x7d" ++ after)
      (hbody : parseExpression before = .ok body) :
      parseTemplate (template line) =
        .ok (.template [.dynamic body, .plain (after ++ "\x7d")]) := by
    rw [template_of_unmarked hline]
    exact parseTemplate_stray .dynamic hline hsplit hbody
  refine ⟨⟨?_, fun hstray => ?_⟩, fun before after body hsplit hbody => ?_⟩
  · rintro hbare ⟨before, after, body, hsplit, hbody⟩
    rw [hrest before after body hsplit hbody] at htree
    obtain ⟨n, hn⟩ := hbare.read.mp ⟨_, htree⟩
    exact parseExpression_stray hline ⟨before, after, body, hsplit, hbody⟩ hn
  · have hparse := parseTemplate_template hline hstray
    cases htemplate : parseTemplate (template line) with
    | ok n =>
      rw [htemplate] at htree heval
      have hn : parseExpression line = .ok n := (hparse n).mp htemplate
      refine ⟨⟨fun _ => ⟨n, hn⟩, fun _ => ⟨n, htree⟩⟩, fun m hm => ?_, fun e he => ?_, hworld⟩
      · rw [hn] at hm
        cases hm
        exact heval
      · rw [hn] at he
        cases he
    | error e =>
      rw [htemplate] at htree heval
      have hnone (n : Node) : parseExpression line ≠ .ok n := fun hn => by
        rw [(hparse n).mpr hn] at htemplate
        cases htemplate
      refine ⟨⟨fun ⟨n, hn⟩ => ?_, fun ⟨n, hn⟩ => (hnone n hn).elim⟩,
        fun n hn => (hnone n hn).elim, fun _ _ => ⟨e, heval⟩, hworld⟩
      rw [htree] at hn
      cases hn
  · rw [hrest before after body hsplit hbody] at heval
    exact heval

/-- A map whose key is a closing brace, after another line. -/
theorem bracedKey_reads_bare :
    (List.foldl enter (ofSettings {}) [.line "a = 1"]).factory.Reached ∧
      marked "\x7b'\x7d':a\x7d".toList = false ∧
      ReadsBare (List.foldl enter (ofSettings {}) [.line "a = 1"]) "\x7b'\x7d':a\x7d" := by
  have hs := factory_reached {} [.line "a = 1"]
  have hline : marked "\x7b'\x7d':a\x7d".toList = false := by decide
  exact ⟨hs, hline, (reads_bare_iff hs hline).1.mpr fun hstray =>
    parseExpression_stray hline hstray parse_bracedKey⟩

/-- The brace of this line closes nothing, and the line is no expression. Yet the session reads it. -/
theorem number_with_brace_read :
    marked "1\x7d".toList = false ∧
      parseExpression "1\x7d" = .error ⟨.trailing "\x7d", ⟨1, 2⟩⟩ ∧
      (∃ n, (ofSettings {}).lineTree "1\x7d" = .ok n) ∧
      ∃ w, ((ofSettings {}).evalLine "1\x7d").1 = .value (.text "1\x7d") w := by
  have hline : marked "1\x7d".toList = false := by decide
  have hone : parseExpression "1" = .ok (.integer "1") :=
    parseExpression_of_toOption (by decide +kernel)
  have hs : (ofSettings {}).factory.Reached := factory_reached {} []
  have hsplit : "1\x7d" = "1" ++ "\x7d" ++ "" := by decide
  have hread : parseTemplate (template "1\x7d") =
      .ok (.template [.dynamic (.integer "1"), .plain "\x7d"]) := by
    rw [template_of_unmarked hline]
    exact parseTemplate_stray .dynamic hline hsplit hone
  have htree : (ofSettings {}).lineTree "1\x7d" = _ := hs.parse_eq (template "1\x7d")
  have heval := (evalTemplate_eq hs (ofSettings {}).world (template "1\x7d")).1
  rw [hread] at htree heval
  exact ⟨hline, parseExpression_error (by decide +kernel), ⟨_, htree⟩, _, heval⟩

end Session

end ExprLang
