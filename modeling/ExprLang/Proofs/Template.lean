import ExprLang.Proofs.Parser.Spacing
import Mathlib.Data.List.Chain

/-! A text that is written from literals and segments is read back as them. -/

namespace ExprLang.Template

open ExprLang.Lexer (byteLength)

/-! ## Texts in parts -/

/-- The characters with a backslash before every marker. -/
def escape : List Char → List Char
  | '$' :: '\x7b' :: cs => '\\' :: '$' :: '\x7b' :: escape cs
  | '#' :: '\x7b' :: cs => '\\' :: '#' :: '\x7b' :: escape cs
  | c :: cs => c :: escape cs
  | [] => []

/-- A part of a text: characters that stand for themselves, or an expression. -/
inductive Part where
  | literal (text : String) (nonempty : text ≠ "")
  | segment (source : String) (body : Node) (parsed : parseExpression source = .ok body)

namespace Part

/-- What is written for a part, where segments have this marker. -/
def render (m : Marker) : Part → List Char
  | literal text _ => escape text.toList
  | segment source _ _ => m.spelling ++ source.toList ++ ['\x7d']

/-- What a part is read as. -/
def node (m : Marker) : Part → Node
  | literal text _ => .plain text
  | segment _ body _ => m.wrap body

/-- The tree of a text that is this part alone. A segment stands for its expression. -/
def alone : Part → Node
  | literal text _ => .plain text
  | segment _ body _ => body

/-- The second part may follow the first. Two literals would be one, and a backslash before a
segment would make its marker a part of the text. -/
def MayPrecede : Part → Part → Prop
  | literal _ _, literal _ _ => False
  | literal text _, segment _ _ _ => text.toList.getLast? ≠ some '\\'
  | segment _ _ _, _ => True

end Part

/-- The text of these parts. -/
def render (m : Marker) (parts : List Part) : String :=
  String.ofList (parts.flatMap (Part.render m))

/-- The tree of these parts. -/
def tree (m : Marker) : List Part → Node
  | [] => .plain ""
  | [part] => part.alone
  | parts => .template (parts.map (Part.node m))

/-! ## Literals -/

/-- A marker stands next. -/
def opens : List Char → Bool
  | '$' :: '\x7b' :: _ => true
  | '#' :: '\x7b' :: _ => true
  | _ => false

variable {c : Char} {cs rest tail : List Char}

theorem opens_cons (h : opens (c :: cs) = true) :
    (c = '$' ∨ c = '#') ∧ cs.head? = some '\x7b' := by
  unfold opens at h
  split at h
  · next hcs => cases hcs; exact ⟨.inl rfl, rfl⟩
  · next hcs => cases hcs; exact ⟨.inr rfl, rfl⟩
  · cases h

theorem head_letter (h : opens (c :: rest) = false) (hb : c = '\\' → opens rest = false) :
    head c rest = .letter c rest := by
  unfold head
  split
  · cases hb rfl
  · cases hb rfl
  · cases h
  · cases h
  · rfl

theorem head_escaped (m : Marker) (rest : List Char) :
    head '\\' (m.spelling ++ rest) = .escaped m rest := by
  cases m <;> rfl

theorem head_opening (m : Marker) (rest : List Char) :
    ∃ c more, m.spelling ++ rest = c :: more ∧ head c more = .opening m rest := by
  cases m <;> exact ⟨_, _, rfl, rfl⟩

theorem head?_escape_append (ht : tail.head? ≠ some '\x7b')
    (h : (escape cs ++ tail).head? = some '\x7b') : cs.head? = some '\x7b' := by
  revert h
  fun_cases escape cs with
  | case1 => exact nofun
  | case2 => exact nofun
  | case3 c cs => exact id
  | case4 => exact fun h => (ht h).elim

/-- A marker stands somewhere. -/
def marked : List Char → Bool
  | [] => false
  | c :: cs => opens (c :: cs) || marked cs

/-- A text without markers is read as it is. -/
theorem partsFrom_of_unmarked (h : marked cs = false) (offset : Nat) (literal : List Char) :
    partsFrom offset literal cs = .ok (flush (cs.reverse ++ literal) []) := by
  induction cs generalizing offset literal with
  | nil => rw [partsFrom, List.reverse_nil, List.nil_append]
  | cons c cs ih =>
    obtain ⟨hopens, hcs⟩ := Bool.or_eq_false_iff.mp h
    have hnext : c = '\\' → opens cs = false := by
      rintro rfl
      cases cs with
      | nil => rfl
      | cons d cs => exact (Bool.or_eq_false_iff.mp hcs).1
    rw [partsFrom_letter (head_letter hopens hnext), ih hcs, List.reverse_cons, List.append_assoc,
      List.singleton_append]

/-- No marker is left where an escaped text starts. -/
theorem opens_escape_append (hcs : cs ≠ []) (ht : tail.head? ≠ some '\x7b') :
    opens (escape cs ++ tail) = false := by
  fun_cases escape cs with
  | case1 => rfl
  | case2 => rfl
  | case3 c cs hdynamic hdeferred =>
    refine Bool.eq_false_iff.mpr fun hopens => ?_
    obtain ⟨hc, hhead⟩ := opens_cons hopens
    obtain ⟨cs, rfl⟩ := List.head?_eq_some_iff.mp (head?_escape_append ht hhead)
    rcases hc with rfl | rfl
    · exact hdynamic _ rfl rfl
    · exact hdeferred _ rfl rfl
  | case4 => exact (hcs rfl).elim

/-- An escaped marker is read, and the rest after it. -/
theorem partsFrom_marker {m : Marker}
    (h : ∀ offset literal, partsFrom offset literal (escape cs ++ tail) =
      partsFrom (offset + byteLength (escape cs)) (cs.reverse ++ literal) tail)
    (offset : Nat) (literal : List Char) :
    partsFrom offset literal ('\\' :: (m.spelling ++ escape cs) ++ tail) =
      partsFrom (offset + byteLength ('\\' :: (m.spelling ++ escape cs)))
        ((m.spelling ++ cs).reverse ++ literal) tail := by
  have hlength : byteLength ('\\' :: (m.spelling ++ escape cs)) = 3 + byteLength (escape cs) := by
    have h : 1 + (1 + (1 + byteLength (escape cs))) = 3 + byteLength (escape cs) := by omega
    cases m <;> exact h
  rw [List.cons_append, List.append_assoc, partsFrom_escaped (head_escaped m _), h, hlength,
    Nat.add_assoc, List.reverse_append, List.append_assoc]

/-- The characters of a literal are read one after the other, unless the last one escapes the
segment that follows. -/
theorem partsFrom_escape (ht : tail.head? ≠ some '\x7b')
    (hb : opens tail = true → cs.getLast? ≠ some '\\') (offset : Nat) (literal : List Char) :
    partsFrom offset literal (escape cs ++ tail) =
      partsFrom (offset + byteLength (escape cs)) (cs.reverse ++ literal) tail := by
  have hlast {c : Char} {cs : List Char} (hb : opens tail = true → (c :: cs).getLast? ≠ some '\\') :
      opens tail = true → cs.getLast? ≠ some '\\' :=
    fun htail h => hb htail (by rw [List.getLast?_cons, h]; rfl)
  fun_induction escape cs generalizing offset literal with
  | case1 cs ih => exact partsFrom_marker (m := .dynamic) (ih (hlast (hlast hb))) offset literal
  | case2 cs ih => exact partsFrom_marker (m := .deferred) (ih (hlast (hlast hb))) offset literal
  | case3 c cs hdynamic hdeferred ih =>
    have hc : opens (c :: (escape cs ++ tail)) = false := by
      have h := opens_escape_append (List.cons_ne_nil c cs) ht
      rwa [escape.eq_3 c cs hdynamic hdeferred] at h
    have hnext : c = '\\' → opens (escape cs ++ tail) = false := by
      rintro rfl
      cases cs with
      | nil => exact Bool.eq_false_iff.mpr fun hopens => hb hopens rfl
      | cons d cs => exact opens_escape_append (List.cons_ne_nil d cs) ht
    rw [List.cons_append, partsFrom_letter (head_letter hc hnext), ih (hlast hb), byteLength,
      Nat.add_assoc, List.reverse_cons, List.append_assoc, List.singleton_append]
  | case4 => rfl

/-! ## Segments -/

/-- The text of an expression is a segment, wherever it stands. -/
theorem segmentFrom_of_parsed {source : String} {body : Node}
    (h : parseExpression source = .ok body) (offset : Nat) (tail : List Char) :
    ∃ segment, Lexer.segmentFrom offset 0 (source.toList ++ '\x7d' :: tail) = .ok segment ∧
      segment.rest = tail ∧ ∀ eof, parseTokens segment.lexemes eof = .ok body := by
  unfold parseExpression at h
  split at h
  · next ts hts =>
    have hlater := Lexer.lexFrom_shift hts offset
    rw [Nat.zero_add] at hlater
    have hspaced := Parser.respaced_shift none offset ts
    rw [Parser.closing, List.append_nil] at hspaced
    have hbody := parseTokens_respaced hspaced h
    have hclosed := depthAfter_of_parseTokens (hbody (.point 0))
    exact ⟨_, Lexer.segmentFrom_of_lexFrom hlater hclosed tail, rfl, hbody⟩
  · cases h

theorem partsFrom_segment {source : String} {body : Node} {parts : List Node} {m : Marker}
    (h : parseExpression source = .ok body)
    (ht : ∀ offset, partsFrom offset [] tail = .ok parts) (offset : Nat) (literal : List Char) :
    partsFrom offset literal (m.spelling ++ source.toList ++ ['\x7d'] ++ tail) =
      .ok (flush literal (m.wrap body :: parts)) := by
  obtain ⟨segment, hs, hrest, hbody⟩ := segmentFrom_of_parsed h (offset + 2) tail
  obtain ⟨c, more, hmore, hc⟩ := head_opening m (source.toList ++ '\x7d' :: tail)
  have htext : m.spelling ++ source.toList ++ ['\x7d'] ++ tail = c :: more := by
    simp only [← hmore, List.append_assoc, List.singleton_append]
  rw [htext, partsFrom_opening hc hs, hbody, hrest, ht]

/-! ## Whole texts -/

theorem flush_literal {text : String} (h : text ≠ "") (parts : List Node) :
    flush text.toList.reverse parts = .plain text :: parts := by
  have hne : text.toList.reverse.isEmpty = false := by simpa using h
  rw [flush, hne, List.reverse_reverse, String.ofList_toList]
  rfl

/-- What is written for a text is read as the text. -/
theorem parseTemplate_escape {text : String} (h : text ≠ "") :
    parseTemplate (String.ofList (escape text.toList)) = .ok (.plain text) := by
  have hparts : partsFrom 0 [] (escape text.toList ++ []) = .ok [.plain text] := by
    have hend : opens [] = true → text.toList.getLast? ≠ some '\\' := fun h => by cases h
    rw [partsFrom_escape (by simp) hend, partsFrom, List.append_nil, flush_literal h]
  rw [List.append_nil] at hparts
  rw [parseTemplate, String.toList_ofList, hparts]
  rfl

/-- Parts are read as they were written, after a literal that they do not go on with. -/
theorem partsFrom_render (m : Marker) {parts : List Part} (h : parts.IsChain Part.MayPrecede)
    (offset : Nat) {before : List Char}
    (hbefore : before = [] ∨ ∀ text ht, parts.head? ≠ some (.literal text ht)) :
    partsFrom offset before (parts.flatMap (Part.render m)) =
      .ok (flush before (parts.map (Part.node m))) := by
  induction parts generalizing offset before with
  | nil =>
    rw [List.flatMap_nil, partsFrom]
    rfl
  | cons part parts ih =>
    cases part with
    | segment source body hbody =>
      exact partsFrom_segment hbody (fun offset => ih h.tail offset (.inl rfl)) offset before
    | literal text ht =>
      obtain rfl := hbefore.resolve_right fun hhead => hhead text ht rfl
      have hhead : ∀ text' ht', parts.head? ≠ some (.literal text' ht') := by
        intro text' ht' hhead
        obtain ⟨rest, rfl⟩ := List.head?_eq_some_iff.mp hhead
        exact h.rel
      have hrest : (parts.flatMap (Part.render m)).head? ≠ some '\x7b' ∧
          (opens (parts.flatMap (Part.render m)) = true → text.toList.getLast? ≠ some '\\') := by
        cases parts with
        | nil => simp [opens]
        | cons next rest =>
          cases next with
          | literal => exact h.rel.elim
          | segment => cases m <;> exact ⟨by simp [Part.render, Marker.spelling], fun _ => h.rel⟩
      rw [List.flatMap_cons, Part.render, partsFrom_escape hrest.1 hrest.2, List.append_nil,
        ih h.tail _ (.inr hhead), flush_literal ht]
      rfl

theorem isMixed_parts (m : Marker) (parts : List Part) :
    isMixed (parts.map (Part.node m)) = false := by
  have hall : ∀ marker ∈ (parts.map (Part.node m)).filterMap marker?, marker = m := by
    intro marker hmarker
    obtain ⟨n, hn, hnode⟩ := List.mem_filterMap.mp hmarker
    obtain ⟨part, -, rfl⟩ := List.mem_map.mp hn
    cases part with
    | literal => cases hnode
    | segment => cases m <;> exact (Option.some.inj hnode).symm
  unfold isMixed
  split
  · rfl
  · next first more heq =>
    rw [heq, List.forall_mem_cons] at hall
    obtain ⟨rfl, hmore⟩ := hall
    exact List.any_eq_false.mpr fun marker hmarker => by simp [hmore marker hmarker]

theorem assemble_parts (stop : Nat) (m : Marker) (parts : List Part) :
    assemble stop (parts.map (Part.node m)) = .ok (tree m parts) := by
  match parts with
  | [] => rfl
  | [part] =>
    cases part with
    | literal => rfl
    | segment => cases m <;> rfl
  | p :: q :: ps =>
    have hmixed := isMixed_parts m (p :: q :: ps)
    rw [List.map_cons, List.map_cons] at hmixed ⊢
    rw [assemble.eq_5, hmixed]
    · rfl
    all_goals simp

end ExprLang.Template

namespace ExprLang

open Template

/-- A text that is one segment is read as its expression. -/
theorem parseTemplate_segment (m : Marker) (source : String) {body : Node}
    (h : parseExpression source = .ok body) :
    parseTemplate (String.ofList (m.spelling ++ source.toList ++ ['\x7d'])) = .ok body := by
  have hparts : partsFrom 0 [] (m.spelling ++ source.toList ++ ['\x7d'] ++ []) =
      .ok (flush [] [m.wrap body]) :=
    partsFrom_segment h (fun offset => by rw [partsFrom]; rfl) 0 []
  rw [List.append_nil] at hparts
  rw [parseTemplate, String.toList_ofList, hparts]
  cases m <;> rfl

/-- A text is read as the parts that it was written from. -/
theorem parseTemplate_render (m : Marker) {parts : List Part}
    (h : parts.IsChain Part.MayPrecede) : parseTemplate (render m parts) = .ok (tree m parts) := by
  rw [parseTemplate, render, String.toList_ofList, partsFrom_render m h 0 (.inl rfl)]
  exact assemble_parts _ m parts

/-- The key of this map is a string that holds a closing brace. -/
theorem parse_bracedKey :
    parseExpression "\x7b'\x7d':a\x7d" = .ok (.map [(.text "\x7d", .name "a")]) :=
  parseExpression_of_toOption (by decide +kernel)

/-- A marker after a backslash, and a sign right before the segment. -/
def bracedKeyParts : List Part :=
  [.literal "\\$\x7b#" (by decide), .segment "\x7b'\x7d':a\x7d" _ parse_bracedKey,
    .literal "!" (by decide)]

theorem parseTemplate_bracedKey :
    parseTemplate "\\\\$\x7b#$\x7b\x7b'\x7d':a\x7d\x7d!" =
      .ok (.template
        [.plain "\\$\x7b#", .dynamic (.map [(.text "\x7d", .name "a")]), .plain "!"]) := by
  have hlast : "\\$\x7b#".toList.getLast? ≠ some '\\' := by decide
  have hparts : bracedKeyParts.IsChain Part.MayPrecede :=
    .cons_cons hlast (.cons_cons trivial (.singleton _))
  have htext : render .dynamic bracedKeyParts = "\\\\$\x7b#$\x7b\x7b'\x7d':a\x7d\x7d!" := by
    decide +kernel
  rw [← htext]
  exact parseTemplate_render .dynamic hparts

end ExprLang
