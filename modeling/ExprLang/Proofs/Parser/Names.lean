import ExprLang.Evaluation.Capture
import ExprLang.Form
import ExprLang.Proofs.Parser.Depth
import ExprLang.Template
import Mathlib.Data.List.TakeWhile

/-! Trees that come from texts are well formed, apart from what stands for the text around segments. No
name in them holds a colon, so the key of a function tells its prefix from its name. -/

namespace ExprLang

namespace Lexer

/-- A name token is made up of the characters of names. -/
theorem isNamePart_of_valid {s : String} (h : (Token.name s).Valid) {d : Char} (hd : d ∈ s.toList) :
    isNamePart d = true := by
  obtain ⟨c, cs, hs, hspace, htoken⟩ := h
  have hs : s.toList = c :: cs := hs
  rcases tokenAt_cases htoken with hn | ⟨hn, ⟨hq, hr⟩ | ⟨hq, hw | ⟨hw, sym, hsym⟩⟩⟩
  · rw [tokenAt_number hn] at htoken
    split at htoken <;> cases htoken
  · rw [tokenAt_quoted hn hq hr] at htoken
    cases htoken
  · rw [tokenAt_word hn hq hw] at htoken
    have hlength : (cs.takeWhile isNamePart).length = cs.length := (Prod.mk.inj htoken).2
    have hall : cs.takeWhile isNamePart = cs := (List.takeWhile_prefix _).eq_of_length hlength
    rw [hs] at hd
    rcases List.mem_cons.mp hd with rfl | hd
    · simp [isNamePart, hw]
    · rw [← hall] at hd
      exact List.all_eq_true.mp List.all_takeWhile d hd
  · rw [tokenAt_symbol hn hq hw hsym] at htoken
    cases htoken

theorem segmentFrom_valid {o d : Nat} {cs : List Char} {s : Segment}
    (h : segmentFrom o d cs = .ok s) : ∀ l ∈ s.lexemes, l.token.Valid := by
  fun_induction segmentFrom o d cs generalizing s with
  | case1 => cases h
  | case2 => cases h
  | case3 =>
    cases h
    intro l hl
    cases hl
  | case4 _ _ _ l _ hn =>
    rename_i hs ih
    cases h
    intro k hk
    rcases List.mem_cons.mp hk with rfl | hk
    · exact next_valid hn
    · exact ih hs k hk
  | case5 => cases h

end Lexer

/-! ## Trees -/

/-- The name holds no colon. -/
def Unmarked (s : String) : Prop := ':' ∉ s.toList

theorem unmarked_of_valid {s : String} (h : (Token.name s).Valid) : Unmarked s := by
  intro hc
  have hpart := Lexer.isNamePart_of_valid h hc
  cases hpart

/-- A function is named without a colon. -/
def Node.Unmarked : Node → Prop
  | .call ns n _ => ExprLang.Unmarked ns ∧ ExprLang.Unmarked n
  | _ => True

theorem Node.WellFormed.unmarked {n : Node} (h : n.WellFormed) : n.Unmarked := by
  cases n with
  | call ns name calls =>
    refine ⟨?_, unmarked_of_valid h.2.1⟩
    cases hempty : ns.isEmpty with
    | false => exact unmarked_of_valid (h.1 hempty)
    | true =>
      rw [String.isEmpty_iff] at hempty
      subst hempty
      exact nofun
  | _ => trivial

/-! ## Templates -/

/-- The tree stands for text or for a segment of it, and not for an expression. -/
def Node.Framing : Node → Prop
  | .plain _ => True
  | .template _ => True
  | .deferred _ => True
  | .dynamic _ => True
  | _ => False

theorem exists_of_mem_partsOfAll {p : Node} {ns : List Node} (h : p ∈ partsOfAll ns) :
    ∃ n ∈ ns, p ∈ n.parts := by
  induction ns with
  | nil => cases h
  | cons n ns ih =>
    rcases List.mem_append.mp h with h | h
    · exact ⟨n, List.mem_cons_self, h⟩
    · obtain ⟨m, hm, hp⟩ := ih h
      exact ⟨m, List.mem_cons_of_mem n hm, hp⟩

namespace Template

theorem mem_flush {literal : List Char} {parts : List Node} {n : Node}
    (h : n ∈ flush literal parts) : (∃ t, n = .plain t) ∨ n ∈ parts := by
  unfold flush at h
  split at h
  · exact .inr h
  · rcases List.mem_cons.mp h with h | h
    · exact .inl ⟨_, h⟩
    · exact .inr h

/-- A text has no parts, or one part that is a segment or is not, or several whose segments have one
marker. -/
theorem assemble_cases {stop : Nat} {parts : List Node} {n : Node}
    (h : assemble stop parts = .ok n) :
    (parts = [] ∧ n = .plain "") ∨ (∃ m, parts = [Marker.wrap m n]) ∨
      (parts = [n] ∧ marker? n = none) ∨
      (2 ≤ parts.length ∧ isMixed parts = false ∧ n = .template parts) := by
  unfold assemble at h
  split at h
  · cases h
    exact .inl ⟨rfl, rfl⟩
  · cases h
    exact .inr (.inl ⟨.dynamic, rfl⟩)
  · cases h
    exact .inr (.inl ⟨.deferred, rfl⟩)
  · next hdynamic hdeferred =>
    cases h
    refine .inr (.inr (.inl ⟨rfl, ?_⟩))
    unfold marker?
    split
    · exact (hdynamic _ rfl).elim
    · exact (hdeferred _ rfl).elim
    · rfl
  · next hnil hdynamic hdeferred hone =>
    split at h
    · cases h
    · next hmixed =>
      cases h
      refine .inr (.inr (.inr ⟨?_, Bool.eq_false_iff.mpr hmixed, rfl⟩))
      match parts, hnil, hone with
      | [], hnil, _ => exact (hnil rfl).elim
      | [p], _, hone => exact (hone p rfl).elim
      | _ :: _ :: _, _, _ => exact Nat.le_add_left 2 _

/-- The parts of a text are plain, or segments around well-formed trees. -/
theorem partsFrom_wellFormed {offset : Nat} {literal cs : List Char} {parts : List Node}
    (h : partsFrom offset literal cs = .ok parts) :
    ∀ n ∈ parts, (∃ t, n = .plain t) ∨ ∃ m body, n = Marker.wrap m body ∧ body.WellFormed := by
  fun_induction partsFrom offset literal cs generalizing parts with
  | case1 offset literal =>
    cases h
    intro n hn
    rcases mem_flush hn with hn | hn
    · exact .inl hn
    · cases hn
  | case2 _ _ _ _ _ _ _ ih => exact ih h
  | case3 _ _ _ _ _ _ _ ih => exact ih h
  | case4 => cases h
  | case5 => cases h
  | case6 => cases h
  | case7 offset literal c rest m rest' hhead segment hsegment node hnode parts' hparts ih =>
    cases h
    have hwell := parseTokens_wellFormed (Lexer.segmentFrom_valid hsegment) hnode
    intro n hn
    rcases mem_flush hn with hn | hn
    · exact .inl hn
    · rcases List.mem_cons.mp hn with rfl | hn
      · exact .inr ⟨m, node, rfl, hwell⟩
      · exact ih hparts n hn

theorem wellFormed_of_segment {offset : Nat} {literal cs : List Char} {parts : List Node}
    {m : Marker} {body : Node} (h : partsFrom offset literal cs = .ok parts)
    (hsegment : m.wrap body ∈ parts) : body.WellFormed := by
  obtain ⟨_, hplain⟩ | ⟨k, inner, hwrap, hinner⟩ := partsFrom_wellFormed h _ hsegment
  · cases m <;> cases hplain
  · cases m <;> cases k <;> cases hwrap
    all_goals exact hinner

/-- What is in the parts of a text stands for text, or is a well-formed tree. -/
theorem parts_partsFrom {offset : Nat} {literal cs : List Char} {parts : List Node}
    (h : partsFrom offset literal cs = .ok parts) :
    ∀ p ∈ partsOfAll parts, p.Framing ∨ p.WellFormed := by
  intro p hp
  obtain ⟨n, hn, hp⟩ := exists_of_mem_partsOfAll hp
  rcases partsFrom_wellFormed h n hn with ⟨t, rfl⟩ | ⟨m, body, rfl, hbody⟩
  · rw [List.mem_singleton.mp hp]
    exact .inl trivial
  · have hbody := body.wellFormed_parts hbody
    cases m <;> rcases List.mem_cons.mp hp with rfl | hp
    all_goals first | exact .inl trivial | exact .inr (hbody p hp)

end Template

open Template

/-- The tree of a text is plain, or made up of several parts, or a well-formed tree. -/
theorem parseTemplate_cases {text : String} {n : Node} (h : parseTemplate text = .ok n) :
    (∃ s, n = .plain s) ∨
      (∃ parts, n = .template parts ∧ partsFrom 0 [] text.toList = .ok parts ∧
        2 ≤ parts.length ∧ isMixed parts = false) ∨
      n.WellFormed := by
  unfold parseTemplate at h
  split at h
  · next parts hparts =>
    rcases assemble_cases h with ⟨-, rfl⟩ | ⟨m, rfl⟩ | ⟨rfl, hnone⟩ | ⟨hseveral, hmixed, rfl⟩
    · exact .inl ⟨"", rfl⟩
    · exact .inr (.inr (wellFormed_of_segment hparts List.mem_cons_self))
    · obtain hplain | ⟨m, body, rfl, -⟩ := partsFrom_wellFormed hparts _ List.mem_cons_self
      · exact .inl hplain
      · cases m <;> cases hnone
    · exact .inr (.inl ⟨parts, rfl, hparts, hseveral, hmixed⟩)
  · cases h

/-- What is in the tree of a text stands for text, or is a well-formed tree. -/
theorem parts_parseTemplate {text : String} {n : Node} (h : parseTemplate text = .ok n) :
    ∀ p ∈ n.parts, p.Framing ∨ p.WellFormed := by
  rcases parseTemplate_cases h with ⟨s, rfl⟩ | ⟨parts, rfl, hparts, -⟩ | hn
  · exact List.forall_mem_singleton.mpr (.inl trivial)
  · exact List.forall_mem_cons.mpr ⟨.inl trivial, parts_partsFrom hparts⟩
  · exact fun p hp => .inr (n.wellFormed_parts hn p hp)

/-- The functions in the tree of a text are named without colons. -/
theorem unmarked_parseTemplate {text : String} {n : Node} (h : parseTemplate text = .ok n) :
    ∀ p ∈ n.parts, p.Unmarked := by
  intro p hp
  rcases parts_parseTemplate h p hp with hframing | hp
  · cases p with
    | call => cases hframing
    | _ => trivial
  · exact hp.unmarked

/-! ## Keys -/

/-- The prefix and the name of a function are read off its key. -/
theorem splitKey_functionKey {ns name : String} (hns : Unmarked ns) (hname : Unmarked name) :
    splitKey (Bound.functionKey ns name) = (ns, name) := by
  have hsplit {s : String} (hs : Unmarked s) : ∀ c ∈ s.toList, (c != ':') = true := by
    intro c hc
    rw [bne_iff_ne]
    rintro rfl
    exact hs hc
  unfold splitKey Bound.functionKey
  by_cases hempty : ns.isEmpty = true
  · have hdrop : name.toList.dropWhile (· != ':') = [] :=
      List.dropWhile_eq_nil_iff.mpr (hsplit hname)
    rw [if_pos hempty, hdrop]
    rw [String.isEmpty_iff] at hempty
    rw [hempty]
  · have hkey : (ns ++ ":" ++ name).toList = ns.toList ++ ':' :: name.toList := by simp
    have hdrop : (ns.toList ++ ':' :: name.toList).dropWhile (· != ':') = ':' :: name.toList := by
      rw [List.dropWhile_append_of_pos (hsplit hns)]
      rfl
    have htake : (ns.toList ++ ':' :: name.toList).takeWhile (· != ':') = ns.toList := by
      rw [List.takeWhile_append_of_pos (hsplit hns)]
      simp
    rw [if_neg hempty, hkey, hdrop, htake]
    simp

end ExprLang
