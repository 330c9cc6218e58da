import ExprLang.Node

/-! The parts of a tree are those of the trees in it, and the tree itself. -/

namespace ExprLang

variable {n m k : Node} {ns : List Node} {calls : List (List Node)} {ss : List Step}

/-! ## Lists of trees -/

theorem partsOfAll_head : n.parts ⊆ partsOfAll (n :: ns) := List.subset_append_left _ _

theorem partsOfAll_tail : partsOfAll ns ⊆ partsOfAll (n :: ns) := List.subset_append_right _ _

theorem partsOfCalls_head : partsOfAll ns ⊆ partsOfCalls (ns :: calls) :=
  List.subset_append_left _ _

theorem partsOfCalls_tail : partsOfCalls calls ⊆ partsOfCalls (ns :: calls) :=
  List.subset_append_right _ _

section Entries
variable {e : Node × Node} {es : List (Node × Node)}

theorem partsOfEntries_key : e.1.parts ⊆ partsOfEntries (e :: es) := fun _ hx =>
  List.mem_append_left _ (List.mem_append_left _ hx)

theorem partsOfEntries_value : e.2.parts ⊆ partsOfEntries (e :: es) := fun _ hx =>
  List.mem_append_left _ (List.mem_append_right _ hx)

theorem partsOfEntries_tail : partsOfEntries es ⊆ partsOfEntries (e :: es) :=
  List.subset_append_right _ _

end Entries

/-! ## Steps of paths -/

section Steps
variable {s : Step}

theorem partsOfStep_subset (h : s ∈ ss) : partsOfStep s ⊆ partsOfSteps ss := by
  induction ss with
  | nil => cases h
  | cons r ss ih =>
    intro n hn
    rw [partsOfSteps, List.mem_append]
    rcases List.mem_cons.mp h with rfl | h
    · exact .inl hn
    · exact .inr (ih h hn)

theorem partsOfSteps_subset {rs : List Step} (h : rs ⊆ ss) : partsOfSteps rs ⊆ partsOfSteps ss := by
  induction rs with
  | nil =>
    intro n hn
    rw [partsOfSteps] at hn
    cases hn
  | cons r rs ih =>
    intro n hn
    rw [partsOfSteps, List.mem_append] at hn
    rcases hn with hn | hn
    · exact partsOfStep_subset (h List.mem_cons_self) hn
    · exact ih (fun s hs => h (List.mem_cons_of_mem r hs)) hn

theorem partsOfStep_selector : partsOfSelector s.selector ⊆ partsOfStep s := by
  obtain ⟨selector, args⟩ := s
  exact List.subset_append_left _ _

theorem partsOfStep_args (hs : s.args? = some ns) : partsOfAll ns ⊆ partsOfStep s := by
  obtain ⟨selector, args⟩ := s
  have he : args = some ns := hs
  subst he
  exact List.subset_append_right _ _

end Steps

/-! ## Trees -/

namespace Node

theorem parts_template : partsOfAll ns ⊆ (template ns).parts := List.subset_cons_self _ _

theorem parts_deferred : n.parts ⊆ (deferred n).parts := List.subset_cons_self _ _

theorem parts_dynamic : n.parts ⊆ (dynamic n).parts := List.subset_cons_self _ _

theorem parts_base : n.parts ⊆ (path n ss).parts := fun _ hx =>
  List.mem_cons_of_mem _ (List.mem_append_left _ hx)

theorem parts_steps : partsOfSteps ss ⊆ (path n ss).parts := fun _ hx =>
  List.mem_cons_of_mem _ (List.mem_append_right _ hx)

theorem parts_calls {x y : String} : partsOfCalls calls ⊆ (call x y calls).parts :=
  List.subset_cons_self _ _

theorem parts_body {ps : List String} : n.parts ⊆ (lambda ps n calls).parts := fun _ hx =>
  List.mem_cons_of_mem _ (List.mem_append_left _ hx)

theorem parts_ownCalls {ps : List String} : partsOfCalls calls ⊆ (lambda ps n calls).parts :=
  fun _ hx => List.mem_cons_of_mem _ (List.mem_append_right _ hx)

theorem parts_operand {op : UnaryOp} : n.parts ⊆ (unary op n).parts := List.subset_cons_self _ _

theorem parts_left {op : BinaryOp} : n.parts ⊆ (binary op n m).parts := fun _ hx =>
  List.mem_cons_of_mem _ (List.mem_append_left _ hx)

theorem parts_right {op : BinaryOp} : m.parts ⊆ (binary op n m).parts := fun _ hx =>
  List.mem_cons_of_mem _ (List.mem_append_right _ hx)

theorem parts_condition : n.parts ⊆ (choice n m k).parts := fun _ hx =>
  List.mem_cons_of_mem _ (List.mem_append_left _ (List.mem_append_left _ hx))

theorem parts_chosen {x : Node} (hx : x = m ∨ x = k) : x.parts ⊆ (choice n m k).parts := by
  intro y hy
  refine List.mem_cons_of_mem _ ?_
  rcases hx with rfl | rfl
  · exact List.mem_append_left _ (List.mem_append_right _ hy)
  · exact List.mem_append_right _ hy

theorem parts_target : n.parts ⊆ (assign n m).parts := fun _ hx =>
  List.mem_cons_of_mem _ (List.mem_append_left _ hx)

theorem parts_value : m.parts ⊆ (assign n m).parts := fun _ hx =>
  List.mem_cons_of_mem _ (List.mem_append_right _ hx)

theorem parts_first : n.parts ⊆ (sequence n m).parts := fun _ hx =>
  List.mem_cons_of_mem _ (List.mem_append_left _ hx)

theorem parts_second : m.parts ⊆ (sequence n m).parts := fun _ hx =>
  List.mem_cons_of_mem _ (List.mem_append_right _ hx)

theorem parts_list : partsOfAll ns ⊆ (list ns).parts := List.subset_cons_self _ _

theorem parts_set : partsOfAll ns ⊆ (set ns).parts := List.subset_cons_self _ _

theorem parts_map {es : List (Node × Node)} : partsOfEntries es ⊆ (map es).parts :=
  List.subset_cons_self _ _

theorem mem_parts_self (n : Node) : n ∈ n.parts := by
  cases n <;> exact List.mem_cons_self

end Node

end ExprLang
