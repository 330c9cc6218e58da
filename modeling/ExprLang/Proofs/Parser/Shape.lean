import ExprLang.Proofs.Parser.Names
import ExprLang.Proofs.Parser.WellFormed
import Mathlib.Data.List.Chain

/-! The tree of a text is plain text, an expression, or literals and segments in turn. Nothing of a
text stands inside an expression, and all its names and numbers can be read as such. -/

namespace ExprLang

/-! ## Names and numbers -/

/-- The text is read as a name, which is no reserved word. -/
structure IsName (s : String) : Prop where
  token : tokenize s = .ok [⟨.name s, ⟨0, s.utf8ByteSize⟩⟩]
  unreserved : ∀ w : Keyword, w.spelling ≠ s

namespace Lexer

/-- A token that is written alone is the only token of the text. -/
theorem tokenize_written {t : Token} (h : t.Valid) :
    tokenize t.written = .ok [⟨t, ⟨0, t.written.utf8ByteSize⟩⟩] := by
  have hwords : Word.AllValid [.token t] := Word.AllValid.nil.cons h
  have htokens := lexFrom_textOf hwords 0
  rw [Word.textOf_singleton] at htokens
  refine htokens.trans ?_
  show Except.ok [Lexeme.mk t ⟨0, 0 + byteLength t.written.toList⟩] = _
  rw [byteLength_toList, Nat.zero_add]

theorem isName_of_valid {s : String} (h : (Token.name s).Valid) : IsName s := by
  have htoken : tokenize s = .ok [⟨.name s, ⟨0, s.utf8ByteSize⟩⟩] := tokenize_written h
  refine ⟨htoken, ?_⟩
  rintro w rfl
  have hkeyword : tokenize w.spelling = .ok [⟨.keyword w, ⟨0, w.spelling.utf8ByteSize⟩⟩] :=
    tokenize_written (keyword_valid w)
  rw [hkeyword] at htoken
  cases htoken

end Lexer

/-! ## Expressions -/

/-- What one node of an expression is made up of. A function without a prefix has the empty text
there. -/
def Node.Formed : Node → Prop
  | .plain _ | .template _ | .deferred _ | .dynamic _ => False
  | .integer t => tokenize t = .ok [⟨.integer t, ⟨0, t.utf8ByteSize⟩⟩]
  | .floating t => tokenize t = .ok [⟨.floating t, ⟨0, t.utf8ByteSize⟩⟩]
  | .name s => IsName s
  | .path _ steps => steps ≠ [] ∧ ∀ s args, Step.mk (.field s) args ∈ steps → IsName s
  | .call ns s calls => (ns = "" ∨ IsName ns) ∧ IsName s ∧ calls ≠ []
  | .lambda params _ _ => ∀ s ∈ params, IsName s
  | _ => True

/-- All the nodes of the tree, at any depth, may stand in an expression. -/
def Node.IsExpression (n : Node) : Prop := ∀ p ∈ n.parts, p.Formed

theorem field_valid {steps : List Step} {s : String} {args : Option (List Node)}
    (h : WellFormedSteps steps) (hs : Step.mk (.field s) args ∈ steps) :
    (Token.name s).Valid := by
  induction steps with
  | nil => cases hs
  | cons step steps ih =>
    rcases List.mem_cons.mp hs with rfl | hs
    · exact h.1.1
    · exact ih h.2 hs

namespace Node.WellFormed

open Lexer (tokenize_written isName_of_valid)

theorem formed {n : Node} (h : n.WellFormed) : n.Formed := by
  cases n with
  | plain _ => exact h
  | template _ => exact h
  | deferred _ => exact h
  | dynamic _ => exact h
  | integer t => exact tokenize_written h
  | floating t => exact tokenize_written h
  | name s => exact isName_of_valid h
  | path base steps => exact ⟨h.2.1, fun s args hs => isName_of_valid (field_valid h.2.2 hs)⟩
  | call ns s calls =>
    refine ⟨?_, isName_of_valid h.2.1, h.2.2.1⟩
    by_cases hempty : ns = ""
    · exact .inl hempty
    · have hns : ns.isEmpty = false := by
        rwa [← Bool.not_eq_true, String.isEmpty_iff]
      exact .inr (isName_of_valid (h.1 hns))
  | lambda params body calls => exact fun s hs => isName_of_valid (h.1 s hs)
  | _ => trivial

theorem isExpression {n : Node} (h : n.WellFormed) : n.IsExpression :=
  fun p hp => (n.wellFormed_parts h p hp).formed

end Node.WellFormed

/-! ## Literals and segments -/

namespace Template

variable {parts : List Node} {literal cs : List Char} {m : Marker} {n t : Node}

/-- A literal, or an expression in a segment with this marker. -/
inductive Piece (m : Marker) : Node → Prop
  | literal {text : String} (h : text ≠ "") : Piece m (.plain text)
  | segment {body : Node} (h : body.IsExpression) : Piece m (m.wrap body)

/-- At least one of two neighbours is a segment. -/
def Beside (p q : Node) : Prop := (marker? p).isSome ∨ (marker? q).isSome

/-- Several literals and segments in turn, with one marker for all segments. -/
structure Composed (m : Marker) (parts : List Node) : Prop where
  several : 2 ≤ parts.length
  pieces : ∀ p ∈ parts, Piece m p
  apart : parts.IsChain Beside
  segment : ∃ body, m.wrap body ∈ parts

theorem marker?_wrap (m : Marker) (body : Node) : marker? (m.wrap body) = some m := by
  cases m <;> rfl

/-- No literal is empty, and none follows another. -/
structure Spread (parts : List Node) : Prop where
  nonempty : ∀ text, .plain text ∈ parts → text ≠ ""
  apart : parts.IsChain Beside

theorem Spread.nil : Spread [] := ⟨fun _ => nofun, .nil⟩

theorem Spread.segment (h : Spread parts) (m : Marker) (body : Node) :
    Spread (m.wrap body :: parts) := by
  constructor
  · intro text htext
    rcases List.mem_cons.mp htext with htext | htext
    · cases m <;> cases htext
    · exact h.nonempty text htext
  · refine List.isChain_cons.mpr ⟨fun q _ => .inl ?_, h.apart⟩
    rw [marker?_wrap]
    rfl

/-- A literal may be put in front of a segment and in front of nothing. -/
theorem Spread.flush (h : Spread parts) (hparts : ∀ n ∈ parts.head?, (marker? n).isSome)
    (literal : List Char) : Spread (flush literal parts) := by
  unfold Template.flush
  split
  · exact h
  · next hliteral =>
    constructor
    · intro text htext
      rcases List.mem_cons.mp htext with htext | htext
      · cases htext
        intro hempty
        apply hliteral
        rw [← String.toList_inj, String.toList_ofList] at hempty
        exact List.isEmpty_iff.mpr (List.reverse_eq_nil_iff.mp hempty)
      · exact h.nonempty text htext
    · exact List.isChain_cons.mpr ⟨fun q hq => .inr (hparts q hq), h.apart⟩

theorem partsFrom_spread {offset : Nat} (h : partsFrom offset literal cs = .ok parts) :
    Spread parts := by
  fun_induction partsFrom offset literal cs generalizing parts with
  | case1 offset literal =>
    cases h
    refine Spread.nil.flush ?_ literal
    intro n hn
    cases hn
  | case2 _ _ _ _ _ _ _ ih => exact ih h
  | case3 _ _ _ _ _ _ _ ih => exact ih h
  | case4 => cases h
  | case5 => cases h
  | case6 => cases h
  | case7 offset literal c rest m rest' hhead segment hsegment node hnode parts' hparts ih =>
    cases h
    refine ((ih hparts).segment m node).flush ?_ literal
    intro n hn
    cases hn
    rw [marker?_wrap]
    rfl

/-- Segments that are not mixed have one marker. -/
theorem marker_of_not_isMixed (h : isMixed parts = false) :
    ∃ m, ∀ p ∈ parts, ∀ k ∈ marker? p, k = m := by
  unfold isMixed at h
  split at h
  · next hnone =>
    refine ⟨.dynamic, fun p hp k hk => ?_⟩
    have hmem : k ∈ parts.filterMap marker? := List.mem_filterMap.mpr ⟨p, hp, hk⟩
    rw [hnone] at hmem
    cases hmem
  · next m ms hsome =>
    refine ⟨m, fun p hp k hk => ?_⟩
    have hmem : k ∈ parts.filterMap marker? := List.mem_filterMap.mpr ⟨p, hp, hk⟩
    rw [hsome] at hmem
    rcases List.mem_cons.mp hmem with rfl | hmem
    · rfl
    · simpa using List.any_eq_false.mp h k hmem

/-- Several parts of a text, if their segments are not mixed. -/
theorem composed_of_partsFrom {offset : Nat} (h : partsFrom offset literal cs = .ok parts)
    (hseveral : 2 ≤ parts.length) (hmixed : isMixed parts = false) :
    ∃ m, Composed m parts := by
  have hspread := partsFrom_spread h
  obtain ⟨m, hm⟩ := marker_of_not_isMixed hmixed
  have hpieces : ∀ p ∈ parts, Piece m p := by
    intro p hp
    rcases partsFrom_wellFormed h p hp with ⟨text, rfl⟩ | ⟨k, body, rfl, hbody⟩
    · exact .literal (hspread.nonempty text hp)
    · obtain rfl : k = m := hm _ hp k (marker?_wrap k body)
      exact .segment hbody.isExpression
  have hsegment : ∀ p ∈ parts, (marker? p).isSome → ∃ body, m.wrap body ∈ parts := by
    intro p hp hsome
    cases hpieces p hp with
    | literal => cases hsome
    | segment => exact ⟨_, hp⟩
  refine ⟨m, hseveral, hpieces, hspread.apart, ?_⟩
  -- Of the first two parts one is a segment.
  match parts, hseveral, hspread.apart, hsegment with
  | p :: q :: _, _, hapart, hsegment =>
    rcases hapart.rel with hp | hq
    · exact hsegment p List.mem_cons_self hp
    · exact hsegment q (List.mem_cons_of_mem p List.mem_cons_self) hq

end Template

open Template

/-- The tree of a text is plain text, or several literals and segments in turn, or an expression. -/
theorem parseTemplate_shape {text : String} {t : Node} (h : parseTemplate text = .ok t) :
    (∃ s, t = .plain s) ∨ (∃ m parts, t = .template parts ∧ Composed m parts) ∨
      t.IsExpression := by
  rcases parseTemplate_cases h with hplain | ⟨parts, rfl, hparts, hseveral, hmixed⟩ | hwell
  · exact .inl hplain
  · obtain ⟨m, hcomposed⟩ := composed_of_partsFrom hparts hseveral hmixed
    exact .inr (.inl ⟨m, parts, rfl, hcomposed⟩)
  · exact .inr (.inr hwell.isExpression)

/-- A literal before two segments, in which are a function with a prefix and a lambda. -/
def counted : Node :=
  .template [.plain "n=", .deferred (.call "m" "f" [[.integer "1"], []]),
    .deferred (.path (.name "a") [.mk (.field "b") (some [.lambda ["x"] (.floating ".5") []])])]

theorem counted_shape :
    parseTemplate "n=#\x7bm:f(1)()\x7d#\x7ba.b(x -> .5)\x7d" = .ok counted ∧
      ((∃ s, counted = .plain s) ∨
        (∃ m parts, counted = .template parts ∧ Composed m parts) ∨ counted.IsExpression) := by
  have hparse : parseTemplate "n=#\x7bm:f(1)()\x7d#\x7ba.b(x -> .5)\x7d" = .ok counted :=
    ok_of_toOption (by decide +kernel)
  exact ⟨hparse, parseTemplate_shape hparse⟩

end ExprLang
