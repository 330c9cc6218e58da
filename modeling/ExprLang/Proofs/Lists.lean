import Mathlib.Data.List.Forall2

/-! Lists that are read item by item, compared with others, or rid of repetitions. -/

namespace ExprLang

/-! ## Readers that may fail -/

/-- A reader that succeeds on every item reads the list. -/
theorem mapM_eq_some_map {α β : Type} {f : α → Option β} {g : α → β} {xs : List α}
    (h : ∀ x ∈ xs, f x = some (g x)) : xs.mapM f = some (xs.map g) := by
  induction xs with
  | nil => rfl
  | cons x xs ih =>
    rw [List.mapM_cons, h x List.mem_cons_self, ih fun y hy => h y (List.mem_cons_of_mem x hy)]
    rfl

theorem isSome_mapM_iff {α β : Type} {f : α → Option β} {xs : List α} :
    (xs.mapM f).isSome = true ↔ ∀ x ∈ xs, (f x).isSome = true := by
  induction xs with
  | nil => exact ⟨fun _ => nofun, fun _ => rfl⟩
  | cons x xs ih =>
    rw [List.mapM_cons, List.forall_mem_cons, ← ih]
    cases f x <;> cases xs.mapM f <;> simp

/-- A test that comes to an end on every item does so on the list. -/
theorem allM_eq_some {α : Type} {p : α → Option Bool} {q : α → Bool} {xs : List α}
    (h : ∀ x ∈ xs, p x = some (q x)) : xs.allM p = some (xs.all q) := by
  induction xs with
  | nil => rfl
  | cons x xs ih =>
    obtain ⟨hx, hxs⟩ := List.forall_mem_cons.mp h
    rw [List.allM, hx, List.all_cons]
    cases q x with
    | false => rfl
    | true => exact ih hxs

theorem anyM_eq_some {α : Type} {p : α → Option Bool} {q : α → Bool} {xs : List α}
    (h : ∀ x ∈ xs, p x = some (q x)) : xs.anyM p = some (xs.any q) := by
  induction xs with
  | nil => rfl
  | cons x xs ih =>
    obtain ⟨hx, hxs⟩ := List.forall_mem_cons.mp h
    rw [List.anyM, hx, List.any_cons]
    cases q x with
    | true => rfl
    | false => exact ih hxs

/-! ## Lists item by item -/

theorem forall₂_imp_of_mem {α β : Type} {r s : α → β → Prop} {xs : List α} {ys : List β}
    (h : List.Forall₂ r xs ys) (hrs : ∀ x ∈ xs, ∀ y ∈ ys, r x y → s x y) : List.Forall₂ s xs ys := by
  induction h with
  | nil => exact .nil
  | cons hxy _ ih =>
    exact .cons (hrs _ List.mem_cons_self _ List.mem_cons_self hxy)
      (ih fun x hx y hy => hrs x (List.mem_cons_of_mem _ hx) y (List.mem_cons_of_mem _ hy))

theorem forall₂_trans {α : Type} {r : α → α → Prop} {xs ys zs : List α}
    (hr : ∀ x y z, r x y → r y z → r x z) (h : List.Forall₂ r xs ys) (h' : List.Forall₂ r ys zs) :
    List.Forall₂ r xs zs := by
  induction h generalizing zs with
  | nil => exact h'
  | cons hxy _ ih =>
    cases h' with
    | cons hyz h' => exact .cons (hr _ _ _ hxy hyz) (ih h')

/-! ## Lists without regard to order -/

/-- Each item has a partner among as many others. -/
def Covers {α : Type} (r : α → α → Prop) (xs ys : List α) : Prop :=
  xs.length = ys.length ∧ ∀ x ∈ xs, ∃ y ∈ ys, r y x

namespace Covers
variable {α : Type} {r s : α → α → Prop} {xs ys zs : List α}

theorem imp (h : Covers r xs ys) (hrs : ∀ x ∈ xs, ∀ y ∈ ys, r y x → s y x) : Covers s xs ys := by
  refine ⟨h.1, fun x hx => ?_⟩
  obtain ⟨y, hy, hyx⟩ := h.2 x hx
  exact ⟨y, hy, hrs x hx y hy hyx⟩

theorem trans (hr : ∀ x y z, r x y → r y z → r x z) (h : Covers r xs ys) (h' : Covers r ys zs) :
    Covers r xs zs := by
  refine ⟨h.1.trans h'.1, fun x hx => ?_⟩
  obtain ⟨y, hy, hyx⟩ := h.2 x hx
  obtain ⟨z, hz, hzy⟩ := h'.2 y hy
  exact ⟨z, hz, hr z y x hzy hyx⟩

/-- Where no two items share a partner, no partner is left over. -/
theorem partners (hlen : ys.length ≤ xs.length) (hcover : ∀ x ∈ xs, ∃ y ∈ ys, r y x)
    (apart : xs.Pairwise fun x x' => ∀ y ∈ ys, r y x → ¬r y x') : ∀ y ∈ ys, ∃ x ∈ xs, r y x := by
  induction xs generalizing ys with
  | nil =>
    rw [List.eq_nil_of_length_eq_zero (Nat.le_zero.mp hlen)]
    exact nofun
  | cons x xs ih =>
    obtain ⟨hx, apart⟩ := List.pairwise_cons.mp apart
    obtain ⟨y₀, hy₀, hyx⟩ := hcover x List.mem_cons_self
    obtain ⟨before, after, rfl⟩ := List.append_of_mem hy₀
    have hsub : ∀ y ∈ before ++ after, y ∈ before ++ y₀ :: after := fun y hy => by
      rcases List.mem_append.mp hy with hy | hy
      · exact List.mem_append_left _ hy
      · exact List.mem_append_right _ (List.mem_cons_of_mem _ hy)
    have hrest : ∀ y ∈ before ++ after, ∃ x ∈ xs, r y x := by
      refine ih ?_ (fun x' hx' => ?_) (apart.imp fun h y hy => h y (hsub y hy))
      · simp only [List.length_append, List.length_cons] at hlen ⊢
        omega
      · obtain ⟨y, hy, hyx'⟩ := hcover x' (List.mem_cons_of_mem _ hx')
        have hne : y ≠ y₀ := by
          rintro rfl
          exact hx x' hx' y hy₀ hyx hyx'
        refine ⟨y, ?_, hyx'⟩
        simpa [hne] using hy
    intro y hy
    by_cases heq : y = y₀
    · exact ⟨x, List.mem_cons_self, heq ▸ hyx⟩
    · obtain ⟨x', hx', hyx'⟩ := hrest y (by simpa [heq] using hy)
      exact ⟨x', List.mem_cons_of_mem _ hx', hyx'⟩

/-- Where no two items share a partner, the others have partners as well. -/
theorem symm (hr : ∀ x ∈ xs, ∀ y ∈ ys, r y x → r x y)
    (apart : xs.Pairwise fun x x' => ∀ y ∈ ys, r y x → ¬r y x') (h : Covers r xs ys) :
    Covers r ys xs := by
  have hpartner := partners (Nat.le_of_eq h.1.symm) h.2 apart
  refine ⟨h.1.symm, fun y hy => ?_⟩
  obtain ⟨x, hx, hyx⟩ := hpartner y hy
  exact ⟨x, hx, hr x hx y hy hyx⟩

end Covers

/-! ## What is found first -/

/-- What is found is not `i` just where another that passes comes before it. -/
theorem find?_ne_iff {α : Type} {p : α → Bool} {xs : List α} {a i : α} (h : xs.find? p = some a)
    (hi : p i = true) :
    a ≠ i ↔ ∃ before j after, xs = before ++ j :: after ∧ i ∉ before ∧ j ≠ i ∧ p j = true := by
  obtain ⟨ha, before, after, rfl, hbefore⟩ := List.find?_eq_some_iff_append.mp h
  constructor
  · intro hne
    refine ⟨before, a, after, rfl, fun hmem => ?_, hne, ha⟩
    have hnot := hbefore i hmem
    rw [hi] at hnot
    cases hnot
  · rintro ⟨before', j, after', hsplit, hfresh, hji, hj⟩ rfl
    rw [hsplit, List.find?_append, List.find?_cons_of_pos hj] at h
    cases hb : before'.find? p with
    | none =>
      rw [hb] at h
      exact hji (Option.some.inj h)
    | some b =>
      rw [hb] at h
      cases h
      exact hfresh (List.mem_of_find?_eq_some hb)

/-! ## Lists without repetitions -/

section Repetitions
variable {α : Type} {r : α → α → Bool}

theorem mem_of_mem_eraseDupsBy {a : α} : ∀ {as : List α}, a ∈ as.eraseDupsBy r → a ∈ as
  | [], h => by
    rw [List.eraseDupsBy_nil] at h
    exact h
  | b :: as, h => by
    rw [List.eraseDupsBy_cons] at h
    rcases List.mem_cons.mp h with rfl | h
    · exact List.mem_cons_self
    · exact List.mem_cons_of_mem b (List.mem_of_mem_filter (mem_of_mem_eraseDupsBy h))
termination_by as => as.length
decreasing_by exact Nat.lt_succ_of_le (List.length_filter_le ..)

/-- Of what is kept, nothing repeats what stands before it. -/
theorem pairwise_eraseDupsBy (r : α → α → Bool) :
    ∀ as : List α, (as.eraseDupsBy r).Pairwise fun a b => r b a = false
  | [] => by
    rw [List.eraseDupsBy_nil]
    exact .nil
  | a :: as => by
    rw [List.eraseDupsBy_cons]
    refine List.pairwise_cons.mpr ⟨fun b hb => ?_, pairwise_eraseDupsBy r _⟩
    exact of_decide_eq_true (List.mem_filter.mp (mem_of_mem_eraseDupsBy hb)).2
termination_by as => as.length
decreasing_by exact Nat.lt_succ_of_le (List.length_filter_le ..)

/-- A test that gives one answer for an item and its repetitions finds what it finds in the whole list. -/
theorem find?_eraseDupsBy {p : α → Bool} (hp : ∀ a b, r b a = true → p b = p a) :
    ∀ as : List α, (as.eraseDupsBy r).find? p = as.find? p
  | [] => by rw [List.eraseDupsBy_nil]
  | a :: as => by
    rw [List.eraseDupsBy_cons, List.find?_cons, List.find?_cons, find?_eraseDupsBy hp]
    cases ha : p a with
    | true => rfl
    | false =>
      show (as.filter _).find? p = as.find? p
      rw [List.find?_filter]
      congr 1
      funext b
      cases hr : r b a with
      | false => simp
      | true => simp [hp a b hr, ha]
termination_by as => as.length
decreasing_by exact Nat.lt_succ_of_le (List.length_filter_le ..)

variable [DecidableEq α] {as bs cs : List α}

theorem nodup_eraseDups (as : List α) : as.eraseDups.Nodup :=
  (pairwise_eraseDupsBy (· == ·) as).imp fun h => (ne_of_beq_false h).symm

theorem find?_eraseDups (p : α → Bool) (as : List α) : as.eraseDups.find? p = as.find? p :=
  find?_eraseDupsBy (fun _ _ h => congrArg p (eq_of_beq h)) as

theorem eraseDups_of_nodup : ∀ {as : List α}, as.Nodup → as.eraseDups = as
  | [], _ => List.eraseDups_nil
  | a :: as, h => by
    obtain ⟨ha, has⟩ := List.nodup_cons.mp h
    have hkept : as.filter (fun b => !b == a) = as := by
      refine List.filter_eq_self.mpr fun b hb => ?_
      rw [Bool.not_eq_true', beq_eq_false_iff_ne]
      rintro rfl
      exact ha hb
    rw [List.eraseDups_cons, hkept, eraseDups_of_nodup has]

theorem removeAll_congr (h : ∀ a, a ∈ as ↔ a ∈ bs) : cs.removeAll as = cs.removeAll bs := by
  refine List.filter_congr fun a _ => ?_
  rw [Bool.eq_iff_iff, Bool.not_eq_true', Bool.not_eq_true']
  simp [h]

/-- It makes no difference to drop the repetitions of the first part before. -/
theorem eraseDups_eraseDups_append (as bs : List α) :
    (as.eraseDups ++ bs).eraseDups = (as ++ bs).eraseDups := by
  rw [List.eraseDups_append, List.eraseDups_append, eraseDups_of_nodup (nodup_eraseDups as),
    removeAll_congr fun a => List.mem_eraseDups]

/-- What stands before already adds nothing. -/
theorem eraseDups_append_of_subset (cs : List α) (h : ∀ b ∈ bs, b ∈ as) :
    (as ++ (bs ++ cs)).eraseDups = (as ++ cs).eraseDups := by
  have hnone : bs.removeAll as = [] := by
    refine List.filter_eq_nil_iff.mpr fun b hb => ?_
    simp [h b hb]
  have hsplit : (bs ++ cs).removeAll as = bs.removeAll as ++ cs.removeAll as :=
    List.filter_append ..
  rw [List.eraseDups_append, List.eraseDups_append, hsplit, hnone, List.nil_append]

end Repetitions

end ExprLang
