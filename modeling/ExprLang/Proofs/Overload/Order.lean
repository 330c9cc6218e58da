import ExprLang.Proofs.Lineage.Assignable
import ExprLang.Proofs.Overload.Laws

/-! Where the order of methods decides a call: among contenders of which each is as specific as all
the others, and these differ in nothing but boxing. -/

namespace ExprLang

/-- What is found in a list is found in any order of it where there is no other such element. -/
theorem find?_perm {α : Type} {p : α → Bool} {as bs : List α} (hperm : as.Perm bs)
    (hone : ∀ a ∈ bs, ∀ b ∈ bs, p a = true → p b = true → a = b) : as.find? p = bs.find? p := by
  cases hb : bs.find? p with
  | none =>
    rw [List.find?_eq_none] at hb ⊢
    exact fun a ha => hb a (hperm.mem_iff.mp ha)
  | some b =>
    have hmem := List.mem_of_find?_eq_some hb
    have hp := List.find?_some hb
    obtain ⟨a, ha⟩ := Option.isSome_iff_exists.mp
      (List.find?_isSome.mpr ⟨b, hperm.mem_iff.mpr hmem, hp⟩)
    rw [ha, hone a (hperm.mem_iff.mp (List.mem_of_find?_eq_some ha)) b hmem (List.find?_some ha) hp]

namespace Overload
variable {h : Heap} {owner name : String} {methods ms : List Method} {args : List Value}
  {m n : Method}

/-! ## Leaders -/

/-- A method is as specific as all of these. -/
def leading (l : Lineage) (cs : List Method) (m : Method) : Bool :=
  cs.all fun n => m.id == n.id || moreSpecific l m.params n.params

theorem mostSpecific?_eq (l : Lineage) (cs : List Method) :
    mostSpecific? l cs = cs.find? (leading l cs) := rfl

/-- A contender that is as specific as all the others. -/
structure Leads (h : Heap) (methods : List Method) (name : String) (args : List Value)
    (m : Method) : Prop where
  contends : m ∈ contenders h methods name args
  leading : leading h.lineage (contenders h methods name args) m = true

theorem leads_of_find (hfind : find h owner methods name none args = .ok m) :
    Leads h methods name args m := by
  rw [find_eq_ok_iff, mostSpecific?_eq] at hfind
  exact ⟨List.mem_of_find?_eq_some hfind, List.find?_some hfind⟩

theorem Leads.specific (hm : Leads h methods name args m)
    (hn : n ∈ contenders h methods name args) :
    m.id = n.id ∨ moreSpecific h.lineage m.params n.params = true := by
  have hall := List.all_eq_true.mp hm.leading n hn
  rwa [Bool.or_eq_true, beq_iff_eq] at hall

/-- Two leaders differ in nothing but boxing. -/
theorem Leads.unboxed (hm : Leads h methods name args m) (hn : Leads h methods name args n) :
    m.id = n.id ∨ m.params.map TypeRef.unboxed = n.params.map TypeRef.unboxed := by
  rcases hm.specific hn.contends with hid | hmn
  · exact .inl hid
  · rcases hn.specific hm.contends with hid | hnm
    · exact .inl hid.symm
    · exact .inr (moreSpecific_both_iff.mp ⟨hmn, hnm⟩)

/-! ## Other orders -/

theorem tied_perm {entries others : List (Score × Method)} (hperm : entries.Perm others) :
    (tied entries).Perm (tied others) := by
  have hbest : isBest entries = isBest others := funext fun s => hperm.all_eq
  rw [tied, hbest]
  exact (hperm.filter _).map _

theorem ranked_perm (hperm : ms.Perm methods) :
    (ranked h ms name args).Perm (ranked h methods name args) := by
  have hfixed : (fixedScores h ms name args).Perm (fixedScores h methods name args) :=
    (hperm.filter _).filterMap _
  have hgathering : (gatheringScores h ms name args).Perm (gatheringScores h methods name args) :=
    (hperm.filter _).filterMap _
  rw [ranked, ranked, hfixed.isEmpty_eq]
  split
  · exact hgathering
  · exact hfixed

theorem contenders_perm (hperm : ms.Perm methods) :
    (contenders h ms name args).Perm (contenders h methods name args) :=
  tied_perm (ranked_perm hperm)

theorem leading_perm {l : Lineage} {cs ds : List Method} (hperm : cs.Perm ds) :
    leading l cs = leading l ds :=
  funext fun _ => hperm.all_eq

theorem leads_perm (hperm : ms.Perm methods) (hm : Leads h ms name args m) :
    Leads h methods name args m :=
  have hcontenders := contenders_perm hperm
  ⟨hcontenders.mem_iff.mp hm.contends, leading_perm hcontenders ▸ hm.leading⟩

/-- With one leader at most the order decides nothing. -/
theorem find_perm (hperm : ms.Perm methods)
    (hone : ∀ m n, Leads h methods name args m → Leads h methods name args n → m = n) :
    find h owner ms name none args = find h owner methods name none args := by
  have hcontenders : (contenders h ms name args).Perm (contenders h methods name args) :=
    contenders_perm hperm
  have hchoice : mostSpecific? h.lineage (contenders h ms name args) =
      mostSpecific? h.lineage (contenders h methods name args) := by
    rw [mostSpecific?_eq, mostSpecific?_eq, leading_perm hcontenders]
    exact find?_perm hcontenders fun m hm n hn hmleads hnleads =>
      hone m n ⟨hm, hmleads⟩ ⟨hn, hnleads⟩
  rw [find_eq_choice, find_eq_choice, (hperm.filter _).isEmpty_eq,
    (ranked_perm hperm).isEmpty_eq, hchoice]

/-! ## Leaders that come first -/

theorem scored_named_cons {score : Method → Option Score} {s : Score}
    (hname : (m.name == name) = true) (hs : score m = some s) :
    scored score ((m :: ms).filter (·.name == name)) =
      (s, m) :: scored score (ms.filter (·.name == name)) := by
  rw [List.filter_cons, if_pos hname]
  exact List.filterMap_cons_some (by rw [hs]; rfl)

/-- A contender that comes first is the first contender. -/
theorem contenders_cons (hm : m ∈ contenders h (m :: ms) name args) :
    ∃ rest, contenders h (m :: ms) name args = m :: rest := by
  obtain ⟨s, hentry, hbest⟩ := mem_tied.mp hm
  obtain ⟨hnamed, hscore⟩ := mem_ranked hentry
  have hname := (List.mem_filter.mp hnamed).2
  obtain ⟨rest, hrest⟩ : ∃ rest, ranked h (m :: ms) name args = (s, m) :: rest := by
    rcases hscore with hs | ⟨hnone, hs⟩
    · have hfixed : fixedScores h (m :: ms) name args = _ := scored_named_cons hname hs
      exact ⟨_, (ranked_of_fixed (hfixed ▸ List.cons_ne_nil _ _)).trans hfixed⟩
    · exact ⟨_, (ranked_of_gathering hnone).trans (scored_named_cons hname hs)⟩
  rw [hrest] at hbest
  refine ⟨((rest.filter fun e => isBest ((s, m) :: rest) e.1)).map (·.2), ?_⟩
  simp only [contenders, hrest, tied, List.filter_cons, hbest, if_true, List.map_cons]

/-- What some order chooses are the leaders. -/
theorem exists_order_iff : (∃ ms, ms.Perm methods ∧ find h owner ms name none args = .ok m) ↔
    Leads h methods name args m := by
  constructor
  · rintro ⟨ms, hperm, hfind⟩
    exact leads_perm hperm (leads_of_find hfind)
  · intro hm
    -- Among the same methods with this one in front it is the first leader.
    obtain ⟨before, after, rfl⟩ := List.append_of_mem (mem_of_mem_contenders hm.contends)
    have hperm : (m :: (before ++ after)).Perm (before ++ m :: after) := List.perm_middle.symm
    have hfirst := leads_perm hperm.symm hm
    obtain ⟨rest, hrest⟩ := contenders_cons hfirst.contends
    refine ⟨_, hperm, find_eq_ok_iff.mpr ?_⟩
    have hleading := hfirst.leading
    rw [hrest] at hleading
    rw [hrest, mostSpecific?_eq, List.find?_cons_of_pos hleading]

/-- A call is ambiguous where methods contend and none leads. -/
theorem find_ambiguous_iff : (∃ text, find h owner methods name none args =
    .error (.ambiguousCall text)) ↔
      contenders h methods name args ≠ [] ∧ ∀ m, ¬Leads h methods name args m := by
  have hnone : mostSpecific? h.lineage (contenders h methods name args) = none ↔
      ∀ m, ¬Leads h methods name args m := by
    rw [mostSpecific?_eq, List.find?_eq_none]
    exact ⟨fun hno m hm => hno m hm.contends hm.leading, fun hno m hm hlead => hno m ⟨hm, hlead⟩⟩
  constructor
  · rintro ⟨text, hfind⟩
    rw [find_eq_choice] at hfind
    split at hfind
    · cases hfind
    · split at hfind
      · cases hfind
      · next hranked =>
        split at hfind
        · cases hfind
        · next hchoice =>
          exact ⟨tied_ne_nil fun hnil => hranked (List.isEmpty_iff.mpr hnil), hnone.mp hchoice⟩
  · rintro ⟨hne, hno⟩
    rw [find_of_contenders_ne_nil hne, hnone.mpr hno]
    exact ⟨_, rfl⟩

theorem find_pinned_perm {types : List TypeRef} (hdistinct : DistinctSignatures methods)
    (hperm : ms.Perm methods) :
    find h owner ms name (some types) args = find h owner methods name (some types) args := by
  have hnamed := hperm.filter (·.name == name)
  have hfound : (ms.filter (·.name == name)).find? (·.params == types) =
      (methods.filter (·.name == name)).find? (·.params == types) := by
    refine find?_perm hnamed fun m hm n hn hmparams hnparams => ?_
    obtain ⟨hm, hmname⟩ := List.mem_filter.mp hm
    obtain ⟨hn, hnname⟩ := List.mem_filter.mp hn
    refine Method.eq_of_sameSignature hdistinct hm hn ?_
    rw [Method.sameSignature, eq_of_beq hmname, eq_of_beq hnname, eq_of_beq hmparams,
      eq_of_beq hnparams, beq_self_eq_true, beq_self_eq_true]
    rfl
  simp only [find, hnamed.isEmpty_eq, hfound]

/-- The order of methods of different signatures decides nothing for given types, and for values just
where there are several leaders. Each of these is what some order chooses, and they differ in nothing
but boxing; a call is ambiguous where methods contend and none leads. -/
theorem order_free_iff_one_leader (h : Heap) (owner name : String) {methods : List Method}
    (args : List Value) (hdistinct : DistinctSignatures methods) :
    (∀ types ms, ms.Perm methods →
        find h owner ms name (some types) args = find h owner methods name (some types) args) ∧
      ((∀ ms, ms.Perm methods →
          find h owner ms name none args = find h owner methods name none args) ↔
        ∀ m n, Leads h methods name args m → Leads h methods name args n → m = n) ∧
      (∀ m, (∃ ms, ms.Perm methods ∧ find h owner ms name none args = .ok m) ↔
        Leads h methods name args m) ∧
      (∀ m n, Leads h methods name args m → Leads h methods name args n →
        m.id = n.id ∨ m.params.map TypeRef.unboxed = n.params.map TypeRef.unboxed) ∧
      ((∃ text, find h owner methods name none args = .error (.ambiguousCall text)) ↔
        contenders h methods name args ≠ [] ∧ ∀ m, ¬Leads h methods name args m) := by
  refine ⟨fun _ _ => find_pinned_perm hdistinct, ⟨fun hfree m n hm hn => ?_, fun hone ms hperm => ?_⟩,
    fun _ => exists_order_iff, fun _ _ => Leads.unboxed, find_ambiguous_iff⟩
  · obtain ⟨ms, hms, hfindm⟩ := exists_order_iff.mpr hm
    obtain ⟨ns, hns, hfindn⟩ := exists_order_iff.mpr hn
    exact Except.ok.inj (hfindm.symm.trans ((hfree ms hms).trans ((hfree ns hns).symm.trans hfindn)))
  · exact find_perm hperm hone

/-- Of two types to which a byte is converted the one that widens to the other is chosen, whichever
comes first. -/
theorem widening_overloads_order_free :
    DistinctSignatures [overload 0 (.primitive .int), overload 1 (.primitive .long)] ∧
      find emptyHeap "T" [overload 1 (.primitive .long), overload 0 (.primitive .int)] "f" none
          [.byte 3] =
        find emptyHeap "T" [overload 0 (.primitive .int), overload 1 (.primitive .long)] "f" none
          [.byte 3] := by
  have hdistinct :
      DistinctSignatures [overload 0 (.primitive .int), overload 1 (.primitive .long)] := by
    simp [DistinctSignatures, Method.sameSignature, Method.params, overload]
  have hcontenders : contenders emptyHeap
      [overload 0 (.primitive .int), overload 1 (.primitive .long)] "f" [.byte 3] =
        [overload 0 (.primitive .int), overload 1 (.primitive .long)] := rfl
  have hone (m : Method) (hm : Leads emptyHeap
      [overload 0 (.primitive .int), overload 1 (.primitive .long)] "f" [.byte 3] m) :
      m = overload 0 (.primitive .int) := by
    obtain ⟨hmem, hleading⟩ := hm
    rw [hcontenders] at hmem hleading
    rcases List.mem_pair.mp hmem with rfl | rfl
    · rfl
    · cases hleading
  refine ⟨hdistinct, (order_free_iff_one_leader _ "T" "f" [.byte 3] hdistinct).2.1.mpr ?_ _
    (List.Perm.swap _ _ [])⟩
  exact fun m n hm hn => (hone m hm).trans (hone n hn).symm

/-- Methods for a number and for the same number boxed: a value of another type fits both as well,
each is as specific as the other, and the one that is declared first is chosen. -/
theorem boxed_overload_by_order :
    DistinctSignatures [overload 0 (.primitive .int), overload 1 (.boxed .int)] ∧
      contenders emptyHeap [overload 0 (.primitive .int), overload 1 (.boxed .int)] "f" [.long 1] =
        [overload 0 (.primitive .int), overload 1 (.boxed .int)] ∧
      moreSpecific emptyHeap.lineage [.primitive .int] [.boxed .int] = true ∧
      moreSpecific emptyHeap.lineage [.boxed .int] [.primitive .int] = true ∧
      find emptyHeap "T" [overload 0 (.primitive .int), overload 1 (.boxed .int)] "f" none
          [.long 1] = .ok (overload 0 (.primitive .int)) ∧
      find emptyHeap "T" [overload 1 (.boxed .int), overload 0 (.primitive .int)] "f" none
          [.long 1] = .ok (overload 1 (.boxed .int)) ∧
      overload 0 (.primitive .int) ≠ overload 1 (.boxed .int) := by
  refine ⟨?_, rfl, rfl, rfl, find_eq_ok_iff.mpr rfl, find_eq_ok_iff.mpr rfl, ?_⟩
  · simp [DistinctSignatures, Method.sameSignature, Method.params, overload]
  · intro heq
    cases congrArg Method.params heq

end Overload

end ExprLang
