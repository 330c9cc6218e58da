import ExprLang.Lineage
import ExprLang.Proofs.Lists
import Mathlib.Logic.Relation

/-! The interfaces of a class are listed in the order in which a walk along all paths of interfaces meets
them first. -/

namespace ExprLang.Lineage
variable {l : Lineage} {c d i : ClassId}

open Relation

/-! ## Paths of interfaces -/

/-- The interfaces that a class names itself. It can name only classes that were there before it. -/
def directInterfaces (l : Lineage) (c : ClassId) : List ClassId :=
  (l.shape c).interfaces.filter fun i => i.rank < c.rank

def Implements (l : Lineage) (c i : ClassId) : Prop := i ∈ l.directInterfaces c

theorem Implements.rank (h : l.Implements c i) : i.rank < c.rank :=
  of_decide_eq_true (List.mem_filter.mp h).2

/-- All that paths of interfaces lead to from a class, depth first, once for each path. -/
def walk (l : Lineage) (c : ClassId) : List ClassId :=
  (l.directInterfaces c).attach.flatMap fun i => i.1 :: l.walk i.1
termination_by c.rank
decreasing_by exact Implements.rank i.2

/-- Classes, each followed by its walk. -/
def branches (l : Lineage) (cs : List ClassId) : List ClassId := cs.flatMap fun i => i :: l.walk i

theorem walk_eq (l : Lineage) (c : ClassId) : l.walk c = l.branches (l.directInterfaces c) := by
  rw [walk, branches]
  conv_rhs => rw [← List.attach_map_subtype_val (l.directInterfaces c), List.flatMap_map]

theorem mem_walk_iff : d ∈ l.walk c ↔ ∃ i, l.Implements c i ∧ (d = i ∨ d ∈ l.walk i) := by
  simp only [walk_eq l c, branches, List.mem_flatMap, List.mem_cons, Implements]

theorem mem_walk : d ∈ l.walk c ↔ TransGen l.Implements c d := by
  constructor
  · induction c using walk.induct l with
    | case1 c ih =>
      intro hd
      obtain ⟨i, hi, rfl | hd⟩ := mem_walk_iff.mp hd
      · exact .single hi
      · exact .head hi (ih ⟨i, hi⟩ hd)
  · intro h
    induction h using TransGen.head_induction_on with
    | single hi => exact mem_walk_iff.mpr ⟨d, hi, .inl rfl⟩
    | head hi _ ih => exact mem_walk_iff.mpr ⟨_, hi, .inr ih⟩

theorem walk_subset (h : d ∈ l.walk c) : ∀ k ∈ l.walk d, k ∈ l.walk c := by
  intro k hk
  rw [mem_walk] at h hk ⊢
  exact h.trans hk

/-- What a walk meets first of its kind is named by where it starts, or by what is not of the kind. -/
theorem named_of_find?_walk {p : ClassId → Bool} (h : (l.walk c).find? p = some i) :
    l.Implements c i ∨ ∃ j ∈ l.walk c, l.Implements j i ∧ p j = false := by
  induction c using walk.induct l with
  | case1 c ih =>
    rw [walk_eq, branches, List.find?_flatMap] at h
    obtain ⟨j, hj, hfound⟩ := List.exists_of_findSome?_eq_some h
    have hwalked : ∀ k ∈ j :: l.walk j, k ∈ l.walk c := fun k hk =>
      mem_walk_iff.mpr ⟨j, hj, List.mem_cons.mp hk⟩
    rw [List.find?_cons] at hfound
    cases hp : p j with
    | true =>
      rw [hp] at hfound
      cases hfound
      exact .inl hj
    | false =>
      rw [hp] at hfound
      refine .inr ?_
      rcases ih ⟨j, hj⟩ hfound with hnamed | ⟨k, hk, hnamed, hpk⟩
      · exact ⟨j, hwalked j List.mem_cons_self, hnamed, hp⟩
      · exact ⟨k, hwalked k (List.mem_cons_of_mem j hk), hnamed, hpk⟩

/-! ## The listing -/

/-- A visit adds what the branches hold, each class where it is met first. All that was seen and ranks
below the bound has been walked through; what ranks above is on the way. -/
theorem visit_eq {bound : Nat} {seen cs : List ClassId} (hseen : seen.Nodup)
    (hwalked : ∀ k ∈ seen, k.rank < bound → ∀ i ∈ l.walk k, i ∈ seen) :
    l.visit bound seen cs = (seen ++ l.branches (cs.filter (·.rank < bound))).eraseDups := by
  induction bound, seen, cs using visit.induct l with
  | case1 bound seen =>
    rw [visit, List.filter_nil, branches, List.flatMap_nil, List.append_nil, eraseDups_of_nodup hseen]
  | case2 bound seen c cs hc ihInner ihRest =>
    have hfresh : (seen ++ [c]).Nodup :=
      List.nodup_append.mpr ⟨hseen, List.pairwise_singleton _ c, fun k hk j hj hkj =>
        hc.2 (List.mem_singleton.mp hj ▸ hkj ▸ hk)⟩
    have hinner : l.visit c.rank (seen ++ [c]) (l.shape c).interfaces =
        (seen ++ c :: l.walk c).eraseDups := by
      rw [ihInner hfresh, walk_eq, directInterfaces, List.append_assoc, List.singleton_append]
      intro k hk hrank i hi
      rcases List.mem_append.mp hk with hk | hk
      · exact List.mem_append_left _ (hwalked k hk (by omega) i hi)
      · rw [List.mem_singleton.mp hk] at hrank
        omega
    rw [visit, dif_pos hc, ihRest (hinner ▸ nodup_eraseDups _), hinner, eraseDups_eraseDups_append,
      List.filter_cons_of_pos (by simpa using hc.1), List.append_assoc]
    · rfl
    · -- What was seen before, `c`, and what its walk met: each has been walked through now.
      intro k hk hrank i hi
      rw [hinner, List.mem_eraseDups, List.mem_append, List.mem_cons] at hk ⊢
      rcases hk with hk | rfl | hk
      · exact .inl (hwalked k hk hrank i hi)
      · exact .inr (.inr hi)
      · exact .inr (.inr (walk_subset hk i hi))
  | case3 bound seen c cs hc ih =>
    rw [visit, dif_neg hc, ih hseen hwalked]
    by_cases hrank : c.rank < bound
    · have hmem : c ∈ seen := by
        by_contra hnew
        exact hc ⟨hrank, hnew⟩
      have hcovered : ∀ k ∈ c :: l.walk c, k ∈ seen :=
        List.forall_mem_cons.mpr ⟨hmem, hwalked c hmem hrank⟩
      rw [List.filter_cons_of_pos (by simpa using hrank)]
      exact (eraseDups_append_of_subset _ hcovered).symm
    · rw [List.filter_cons_of_neg (by simpa using hrank)]

/-- The walks of a class and its ancestors. -/
def fullWalk (l : Lineage) (c : ClassId) : List ClassId := (l.ancestors c).flatMap l.walk

theorem allInterfaces_eq (l : Lineage) (c : ClassId) :
    l.allInterfaces c = (l.fullWalk c).eraseDups := by
  suffices hvisited : ∀ (ks seen : List ClassId), seen.Nodup →
      (∀ k ∈ seen, ∀ i ∈ l.walk k, i ∈ seen) →
      ks.foldl (fun seen k => l.visit k.rank seen (l.shape k).interfaces) seen =
        (seen ++ ks.flatMap l.walk).eraseDups from
    hvisited (l.ancestors c) [] List.nodup_nil (List.forall_mem_nil _)
  intro ks
  induction ks with
  | nil =>
    intro seen hseen _
    rw [List.foldl_nil, List.flatMap_nil, List.append_nil, eraseDups_of_nodup hseen]
  | cons k ks ih =>
    intro seen hseen hwalked
    have hvisit : l.visit k.rank seen (l.shape k).interfaces = (seen ++ l.walk k).eraseDups := by
      rw [visit_eq hseen fun j hj _ => hwalked j hj, walk_eq, directInterfaces]
    rw [List.foldl_cons, hvisit, ih _ (nodup_eraseDups _), eraseDups_eraseDups_append,
      List.append_assoc, List.flatMap_cons]
    intro j hj i hi
    rw [List.mem_eraseDups, List.mem_append] at hj ⊢
    rcases hj with hj | hj
    · exact .inl (hwalked j hj i hi)
    · exact .inr (walk_subset hj i hi)

theorem nodup_allInterfaces (l : Lineage) (c : ClassId) : (l.allInterfaces c).Nodup := by
  rw [allInterfaces_eq]
  exact nodup_eraseDups _

theorem mem_allInterfaces :
    d ∈ l.allInterfaces c ↔ ∃ k ∈ l.ancestors c, TransGen l.Implements k d := by
  rw [allInterfaces_eq, List.mem_eraseDups, fullWalk, List.mem_flatMap]
  simp only [mem_walk]

/-- What a class meets first of its kind is named by it or a superclass, or by an interface of the class
that is not of the kind. -/
theorem named_of_find?_fullWalk {p : ClassId → Bool} (h : (l.fullWalk c).find? p = some i) :
    (∃ k ∈ l.ancestors c, l.Implements k i) ∨ ∃ j ∈ l.allInterfaces c, l.Implements j i ∧ p j = false := by
  rw [fullWalk, List.find?_flatMap] at h
  obtain ⟨k, hk, hfound⟩ := List.exists_of_findSome?_eq_some h
  rcases named_of_find?_walk hfound with hnamed | ⟨j, hj, hnamed, hp⟩
  · exact .inl ⟨k, hk, hnamed⟩
  · refine .inr ⟨j, ?_, hnamed, hp⟩
    rw [allInterfaces_eq, List.mem_eraseDups]
    exact List.mem_flatMap.mpr ⟨k, hk, hj⟩

end ExprLang.Lineage
