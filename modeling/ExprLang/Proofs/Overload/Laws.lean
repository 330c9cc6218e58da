import ExprLang.Proofs.Overload.Contenders
import ExprLang.Proofs.Declared

/-! What an overloaded call selects: the method of exactly the types of its arguments where there is
one, a method that gathers arguments only where no other one fits, and never a method that does not
fit. -/

namespace ExprLang

/-- More exact fits are better than any other fits. -/
theorem Score.isLE_of_exact_lt {s t : Score} (h : s.exact < t.exact) :
    (s.compare t).isLE = true := by
  rw [compare, Nat.compare_eq_lt.mpr h]
  rfl

theorem Score.exact_le_of_isLE {s t : Score} (h : (s.compare t).isLE = true) :
    s.exact ≤ t.exact := by
  by_contra hlt
  rw [compare, Nat.compare_eq_gt.mpr (Nat.lt_of_not_le hlt)] at h
  cases h

namespace Overload
variable {h : Heap} {owner name : String} {methods before after : List Method} {args : List Value}
  {k m n : Method} {s : Score}

/-- No two of these methods have the same name and parameters. -/
def DistinctSignatures (methods : List Method) : Prop :=
  methods.Pairwise fun m n => m.sameSignature n = false

/-! ## Exact types -/

/-- The score of arguments of exact types is the best one there is. -/
theorem le_exact_of_scoreFixed (hs : scoreFixed h m args = some s) :
    (s.compare ⟨args.length, 0, 0, 0⟩).isLE = true := by
  obtain ⟨hle, -⟩ := exact_of_scoreAll hs
  have htotal := total_scoreAll hs
  simp only [Nat.zero_add] at hle
  rcases Nat.lt_or_eq_of_le hle with hlt | heq
  · exact Score.isLE_of_exact_lt hlt
  · have hs : s = ⟨args.length, 0, 0, 0⟩ := by
      cases s
      simp only [Score.total] at htotal heq
      simp only [Score.mk.injEq]
      omega
    rw [hs]
    exact Std.ReflCmp.isLE_rfl

theorem exact_of_scoreFixed (hs : scoreFixed h m args = some s)
    (hbest : (Score.compare ⟨args.length, 0, 0, 0⟩ s).isLE = true) : Exact h m args := by
  obtain ⟨hle, hexact⟩ := exact_of_scoreAll hs
  have hge := Score.exact_le_of_isLE hbest
  simp only [Nat.zero_add] at hle hexact hge
  exact hexact (Nat.le_antisymm hle hge)

theorem mem_fixedScores : (s, m) ∈ fixedScores h methods name args ↔
    (m ∈ methods ∧ m.name = name) ∧ scoreFixed h m args = some s := by
  rw [fixedScores, mem_scored, List.mem_filter, beq_iff_eq]

/-- Where a method takes exactly the types of the arguments, only methods that do contend. -/
theorem mem_contenders_of_exact (hm : m ∈ methods) (hname : m.name = name)
    (hexact : Exact h m args) : n ∈ contenders h methods name args ↔
      n ∈ methods ∧ n.name = name ∧ Exact h n args := by
  have hscore {j : Method} (hj : Exact h j args) :
      scoreFixed h j args = some ⟨args.length, 0, 0, 0⟩ := by
    rw [scoreFixed, scoreAll_of_exact hj, Nat.zero_add]
  have hentry := mem_fixedScores.mpr ⟨⟨hm, hname⟩, hscore hexact⟩
  rw [contenders, ranked_of_fixed (List.ne_nil_of_mem hentry), mem_tied]
  constructor
  · rintro ⟨s, hn, hbest⟩
    obtain ⟨⟨hn, hnamed⟩, hs⟩ := mem_fixedScores.mp hn
    exact ⟨hn, hnamed, exact_of_scoreFixed hs (isBest_iff.mp hbest _ hentry)⟩
  · rintro ⟨hn, hnamed, hn'⟩
    refine ⟨_, mem_fixedScores.mpr ⟨⟨hn, hnamed⟩, hscore hn'⟩, isBest_iff.mpr ?_⟩
    rintro ⟨t, j⟩ hj
    exact le_exact_of_scoreFixed (mem_fixedScores.mp hj).2

/-- A method is chosen where it alone contends. -/
theorem find_of_contenders (hm : m ∈ contenders h methods name args)
    (hall : ∀ n ∈ contenders h methods name args, n = m) :
    find h owner methods name none args = .ok m := by
  rw [find_eq_ok_iff, mostSpecific?]
  cases hcs : contenders h methods name args with
  | nil =>
    rw [hcs] at hm
    cases hm
  | cons n cs =>
    rw [hcs] at hall
    obtain rfl := hall n List.mem_cons_self
    refine List.find?_cons_of_pos (List.all_eq_true.mpr fun j hj => ?_)
    rw [hall j hj, beq_self_eq_true, Bool.true_or]

theorem find_of_exact (hdistinct : DistinctSignatures methods) (hm : m ∈ methods)
    (hname : m.name = name) (hexact : Exact h m args) :
    find h owner methods name none args = .ok m := by
  -- All contenders have the types of the arguments, so they have one signature.
  refine find_of_contenders ((mem_contenders_of_exact hm hname hexact).mpr ⟨hm, hname, hexact⟩) ?_
  intro n hn
  obtain ⟨hn, hnamed, hn'⟩ := (mem_contenders_of_exact hm hname hexact).mp hn
  have hparams : n.params = m.params :=
    List.map_injective_iff.mpr (fun _ _ => Option.some.inj) (hn'.symm.trans hexact)
  refine Method.eq_of_sameSignature hdistinct hn hm ?_
  rw [Method.sameSignature, hnamed, hname, hparams, beq_self_eq_true, beq_self_eq_true]
  rfl

/-! ## Methods that fit -/

theorem fixedScores_eq_nil_iff : fixedScores h methods name args = [] ↔
    ∀ n ∈ methods, n.name = name → ¬FitsOneToOne h n args := by
  rw [List.eq_nil_iff_forall_not_mem]
  constructor
  · intro hnone n hn hnamed hfits
    obtain ⟨s, hs⟩ := Option.isSome_iff_exists.mp (isSome_scoreFixed_iff.mpr hfits)
    exact hnone (s, n) (mem_fixedScores.mpr ⟨⟨hn, hnamed⟩, hs⟩)
  · rintro hnone ⟨s, n⟩ hn
    obtain ⟨⟨hn, hnamed⟩, hs⟩ := mem_fixedScores.mp hn
    exact hnone n hn hnamed (isSome_scoreFixed_iff.mp (Option.isSome_of_eq_some hs))

/-- A method that is chosen fits one to one, or gathers arguments where no method fits so. -/
theorem fits_of_find (hfind : find h owner methods name none args = .ok m) :
    FitsOneToOne h m args ∨
      FitsGathered h m args ∧ ∀ n ∈ methods, n.name = name → ¬FitsOneToOne h n args := by
  obtain ⟨s, hm, -⟩ := mem_tied.mp (List.mem_of_find?_eq_some (find_eq_ok_iff.mp hfind))
  rcases (mem_ranked hm).2 with hs | ⟨hnone, hs⟩
  · exact .inl (isSome_scoreFixed_iff.mp (Option.isSome_of_eq_some hs))
  · exact .inr ⟨isSome_scoreGathering_iff.mp (Option.isSome_of_eq_some hs),
      fixedScores_eq_nil_iff.mp hnone⟩

theorem scored_insert {score : Method → Option Score} (hk : score k = none) :
    scored score ((before ++ k :: after).filter (·.name == name)) =
      scored score ((before ++ after).filter (·.name == name)) := by
  rw [List.filter_append, List.filter_append, List.filter_cons]
  split
  · rw [scored, List.filterMap_append, List.filterMap_cons_none (by rw [hk]; rfl),
      ← List.filterMap_append, ← scored]
  · rfl

/-- A method that does not fit makes no difference to those that contend. -/
theorem contenders_insert (hone : ¬FitsOneToOne h k args) (hgathered : ¬FitsGathered h k args) :
    contenders h (before ++ k :: after) name args = contenders h (before ++ after) name args := by
  rw [← isSome_scoreFixed_iff, Option.not_isSome_iff_eq_none] at hone
  rw [← isSome_scoreGathering_iff, Option.not_isSome_iff_eq_none] at hgathered
  have hfixed : fixedScores h (before ++ k :: after) name args =
      fixedScores h (before ++ after) name args := scored_insert hone
  have hgathering : gatheringScores h (before ++ k :: after) name args =
      gatheringScores h (before ++ after) name args := scored_insert hgathered
  rw [contenders, contenders, ranked, ranked, hfixed, hgathering]

/-- Of methods of different signatures: one of exactly the types of the arguments is chosen, whatever
the others are; a chosen one that does not take the arguments one to one is there only because none
does; what is chosen fits; and a method that fits neither way changes no choice. -/
theorem selection_lawful (h : Heap) (owner name : String) {methods : List Method}
    (args : List Value) (hdistinct : DistinctSignatures methods) :
    (∀ m ∈ methods, m.name = name → Exact h m args →
        find h owner methods name none args = .ok m) ∧
      (∀ m, find h owner methods name none args = .ok m → ¬FitsOneToOne h m args →
        ∀ n ∈ methods, n.name = name → ¬FitsOneToOne h n args) ∧
      (∀ m, find h owner methods name none args = .ok m →
        FitsOneToOne h m args ∨ FitsGathered h m args) ∧
      ∀ before k after, ¬FitsOneToOne h k args → ¬FitsGathered h k args → ∀ m,
        find h owner (before ++ k :: after) name none args = .ok m ↔
          find h owner (before ++ after) name none args = .ok m := by
  refine ⟨fun m hm hname hexact => find_of_exact hdistinct hm hname hexact, ?_, ?_, ?_⟩
  · intro m hfind hnot
    rcases fits_of_find hfind with hfits | ⟨-, hnone⟩
    · exact absurd hfits hnot
    · exact hnone
  · intro m hfind
    exact (fits_of_find hfind).imp_right And.left
  · intro before k after hone hgathered m
    rw [find_eq_ok_iff, find_eq_ok_iff, contenders_insert hone hgathered]

/-- Nothing but the builtin classes. -/
def emptyHeap : Heap := ⟨⟨#[]⟩, #[]⟩

/-- A method of one name that takes one value of a type. -/
def overload (place : Nat) (type : TypeRef) : Method where
  name := "f"
  fixed := [type]
  id := ⟨.host 0, false, place⟩

theorem long_overload_selected :
    DistinctSignatures [overload 0 .object, overload 1 (.boxed .long)] ∧
      find emptyHeap "T" [overload 0 .object, overload 1 (.boxed .long)] "f" none [.long 3] =
        .ok (overload 1 (.boxed .long)) := by
  have hdistinct : DistinctSignatures [overload 0 .object, overload 1 (.boxed .long)] := by
    simp [DistinctSignatures, Method.sameSignature, Method.params, overload]
  exact ⟨hdistinct, (selection_lawful emptyHeap "T" "f" [.long 3] hdistinct).1 _
    (List.mem_cons_of_mem _ List.mem_cons_self) rfl rfl⟩

end Overload

end ExprLang
