import ExprLang.Proofs.Lineage.Walk

/-! A class is a subclass of what a path leads to that follows superclasses first and interfaces then.
These are all the paths there are where nothing that is implemented extends a class. -/

namespace ExprLang.Lineage
variable {l : Lineage} {c d e p : ClassId}

open Relation

/-! ## Paths -/

def Extends (l : Lineage) (c p : ClassId) : Prop := l.superclass? c = some p

/-- A class extends or implements another one. -/
def Inherits (l : Lineage) (c d : ClassId) : Prop := l.Extends c d ∨ l.Implements c d

/-- Some path of superclasses and interfaces leads from one class to the other. -/
def Reaches (l : Lineage) (c d : ClassId) : Prop := ReflTransGen l.Inherits c d

/-- A path that follows superclasses first and interfaces then leads from one class to the other. -/
def Descends (l : Lineage) (c d : ClassId) : Prop :=
  ∃ k, ReflTransGen l.Extends c k ∧ ReflTransGen l.Implements k d

/-- What is implemented extends nothing: interfaces inherit from what they implement only. -/
def Layered (l : Lineage) : Prop := ∀ c i, l.Implements c i → l.superclass? i = none

theorem Inherits.rank (h : l.Inherits c d) : d.rank < c.rank := by
  rcases h with h | h
  · exact superclass?_rank h
  · exact h.rank

theorem Reaches.rank (h : l.Reaches c d) : d = c ∨ d.rank < c.rank := by
  induction h with
  | refl => exact .inl rfl
  | tail _ hstep ih =>
    have hlower := hstep.rank
    rcases ih with rfl | hrank
    · exact .inr hlower
    · exact .inr (by omega)

theorem Reaches.antisymm (hcd : l.Reaches c d) (hdc : l.Reaches d c) : c = d := by
  rcases hcd.rank with rfl | hlower
  · rfl
  · rcases hdc.rank with rfl | hhigher
    · rfl
    · omega

theorem Descends.refl (c : ClassId) : l.Descends c c := ⟨c, .refl, .refl⟩

theorem Descends.extend (hp : l.Extends c p) (hd : l.Descends p d) : l.Descends c d := by
  obtain ⟨k, hk, hd⟩ := hd
  exact ⟨k, .head hp hk, hd⟩

theorem Descends.reaches (h : l.Descends c d) : l.Reaches c d := by
  obtain ⟨k, hk, hd⟩ := h
  have hup : l.Reaches c k := ReflTransGen.mono (fun _ _ h => Or.inl h) _ _ hk
  have hover : l.Reaches k d := ReflTransGen.mono (fun _ _ h => Or.inr h) _ _ hd
  exact hup.trans hover

/-- An interface that extends nothing has only paths of interfaces. -/
theorem Layered.descends (hl : l.Layered) (h : l.Reaches c d) : l.Descends c d := by
  induction h using ReflTransGen.head_induction_on with
  | refl => exact .refl d
  | head hstep _ ih =>
    rcases hstep with hp | hi
    · exact ih.extend hp
    · obtain ⟨k, hk, hd⟩ := ih
      rcases hk.cases_head with rfl | ⟨p, hp, -⟩
      · exact ⟨_, .refl, .head hi hd⟩
      · rw [Extends, hl _ _ hi] at hp
        cases hp

/-- A class of the host that is none of those defined has no name and inherits nothing. -/
theorem shape_host (l : Lineage) (n : Nat) :
    l.shape (.host n) ∈ l.hosts ∨ l.shape (.host n) = default := by
  by_cases hn : n < l.hosts.size
  · exact .inl (by simp [shape, Array.getD, hn])
  · exact .inr (by simp [shape, Array.getD, hn])

theorem layered_of_hosts (h : ∀ s ∈ l.hosts, ∀ i ∈ s.interfaces, l.superclass? i = none) :
    l.Layered := by
  intro c i hi
  have hnamed : i ∈ (l.shape c).interfaces := List.mem_of_mem_filter hi
  cases c with
  | builtin b => cases hnamed
  | host n =>
    rcases l.shape_host n with hs | hs
    · exact h _ hs i hnamed
    · rw [hs] at hnamed
      cases hnamed

/-! ## Superclasses -/

theorem ancestors_of_root (h : l.superclass? c = none) : l.ancestors c = [c] := by
  rw [ancestors, h]

theorem ancestors_of_superclass (h : l.superclass? c = some p) :
    l.ancestors c = c :: l.ancestors p := by
  rw [ancestors, h]

theorem ancestors_below_object (h : l.superclass? c = some (.builtin .object)) :
    l.ancestors c = [c, .builtin .object] := by
  rw [ancestors_of_superclass h, ancestors_of_root rfl]

theorem mem_ancestors : d ∈ l.ancestors c ↔ ReflTransGen l.Extends c d := by
  constructor
  · induction c using ancestors.induct l with
    | case1 c hnone =>
      intro hd
      rw [ancestors_of_root hnone] at hd
      exact List.mem_singleton.mp hd ▸ .refl
    | case2 c p hp ih =>
      intro hd
      rw [ancestors_of_superclass hp] at hd
      rcases List.mem_cons.mp hd with rfl | hd
      · exact .refl
      · exact .head hp (ih hd)
  · intro h
    induction h using ReflTransGen.head_induction_on with
    | refl =>
      rw [ancestors]
      split <;> exact List.mem_cons_self
    | head hp _ ih =>
      rw [ancestors_of_superclass hp]
      exact List.mem_cons_of_mem _ ih

theorem allInterfaces_eq_nil (h : ∀ k ∈ l.ancestors c, (l.shape k).interfaces = []) :
    l.allInterfaces c = [] := by
  rw [List.eq_nil_iff_forall_not_mem]
  intro d hd
  obtain ⟨k, hk, hpath⟩ := mem_allInterfaces.mp hd
  obtain ⟨i, hi, -⟩ := TransGen.head'_iff.mp hpath
  rw [Implements, directInterfaces, h k hk] at hi
  cases hi

/-! ## Builtin classes -/

section Builtin
variable {b : Builtin}

theorem superclass?_builtin (h : l.superclass? (.builtin b) = some c) : ∃ d, c = .builtin d := by
  have hc : b.superclass = some c := (Option.filter_eq_some_iff.mp h).1
  cases b <;> cases hc <;> exact ⟨_, rfl⟩

theorem ancestors_builtin (l : Lineage) (b : Builtin) :
    ∀ c ∈ l.ancestors (.builtin b), ∃ d, c = .builtin d := by
  intro c hc
  rw [mem_ancestors] at hc
  induction hc with
  | refl => exact ⟨b, rfl⟩
  | tail _ hp ih =>
    obtain ⟨d, rfl⟩ := ih
    exact superclass?_builtin hp

theorem allInterfaces_builtin (l : Lineage) (b : Builtin) : l.allInterfaces (.builtin b) = [] := by
  refine allInterfaces_eq_nil fun k hk => ?_
  obtain ⟨d, rfl⟩ := ancestors_builtin l b k hk
  rfl

end Builtin

/-! ## Subclasses -/

theorem isSubclass_iff_mem :
    l.isSubclass c d = true ↔ d ∈ l.ancestors c ∨ d ∈ l.allInterfaces c := by
  rw [isSubclass, Bool.or_eq_true, List.contains_iff_mem, List.contains_iff_mem]

theorem isSubclass_iff : l.isSubclass c d = true ↔ l.Descends c d := by
  rw [isSubclass_iff_mem, mem_allInterfaces]
  constructor
  · rintro (hd | ⟨k, hk, hd⟩)
    · exact ⟨d, mem_ancestors.mp hd, .refl⟩
    · exact ⟨k, mem_ancestors.mp hk, hd.to_reflTransGen⟩
  · rintro ⟨k, hk, hd⟩
    rcases reflTransGen_iff_eq_or_transGen.mp hd with rfl | hd
    · exact .inl (mem_ancestors.mpr hk)
    · exact .inr ⟨k, mem_ancestors.mpr hk, hd⟩

theorem isSubclass_refl (l : Lineage) (c : ClassId) : l.isSubclass c c = true :=
  isSubclass_iff.mpr (.refl c)

theorem isSubclass_antisymm (hcd : l.isSubclass c d = true) (hdc : l.isSubclass d c = true) :
    c = d :=
  (isSubclass_iff.mp hcd).reaches.antisymm (isSubclass_iff.mp hdc).reaches

theorem isSubclass_of_inherits (h : l.Inherits c d) : l.isSubclass c d = true := by
  rw [isSubclass_iff]
  rcases h with hp | hi
  · exact (Descends.refl d).extend hp
  · exact ⟨c, .refl, .single hi⟩

/-- A subclass of a subclass is a subclass. -/
def Transitive (l : Lineage) : Prop :=
  ∀ c d e, l.isSubclass c d = true → l.isSubclass d e = true → l.isSubclass c e = true

theorem Layered.isSubclass_iff_reaches (hl : l.Layered) :
    l.isSubclass c d = true ↔ l.Reaches c d :=
  isSubclass_iff.trans ⟨Descends.reaches, hl.descends⟩

theorem transitive_iff_reaches :
    l.Transitive ↔ ∀ c d, l.isSubclass c d = true ↔ l.Reaches c d := by
  constructor
  · intro htrans c d
    refine ⟨fun h => (isSubclass_iff.mp h).reaches, fun h => ?_⟩
    induction h with
    | refl => exact isSubclass_refl l c
    | tail _ hstep ih => exact htrans _ _ _ ih (isSubclass_of_inherits hstep)
  · intro hreaches c d e hcd hde
    rw [hreaches] at hcd hde ⊢
    exact hcd.trans hde

theorem Layered.transitive (hl : l.Layered) : l.Transitive :=
  transitive_iff_reaches.mpr fun _ _ => hl.isSubclass_iff_reaches

/-- The superclasses of a class and what interfaces lead to from these are all that it is a subclass of.
So subclassing is a partial order, and reachability, just where it is transitive; it is transitive where
what is implemented extends nothing. -/
theorem subclassing_descends (l : Lineage) :
    (∀ c d, l.isSubclass c d = true ↔ l.Descends c d) ∧
      (∀ c, l.isSubclass c c = true) ∧
      (∀ c d, l.isSubclass c d = true → l.isSubclass d c = true → c = d) ∧
      (l.Transitive ↔ ∀ c d, l.isSubclass c d = true ↔ l.Reaches c d) ∧
      (l.Layered → l.Transitive) ∧
      ∀ c, (l.allInterfaces c).Nodup :=
  ⟨fun _ _ => isSubclass_iff, isSubclass_refl l, fun _ _ => isSubclass_antisymm,
    transitive_iff_reaches, Layered.transitive, nodup_allInterfaces l⟩

/-- An interface, one that extends it, and a class that implements the second one. -/
def extendedInterface : Lineage :=
  ⟨#[⟨"J", .interface, none, [], none⟩, ⟨"I", .interface, some (.host 0), [], none⟩,
    ⟨"C", .plain, some (.builtin .object), [.host 1], none⟩]⟩

/-- The class is a subclass of the second interface and this of the first one, which the class reaches but
is no subclass of. -/
theorem extended_interface_missed :
    extendedInterface.isSubclass (.host 2) (.host 1) = true ∧
      extendedInterface.isSubclass (.host 1) (.host 0) = true ∧
      extendedInterface.Reaches (.host 2) (.host 0) ∧
      extendedInterface.isSubclass (.host 2) (.host 0) = false := by
  have hfirst : extendedInterface.isSubclass (.host 2) (.host 1) = true :=
    isSubclass_of_inherits (.inr List.mem_cons_self)
  have hsecond : extendedInterface.isSubclass (.host 1) (.host 0) = true :=
    isSubclass_of_inherits (.inl rfl)
  refine ⟨hfirst, hsecond, ?_, by cbv⟩
  exact (isSubclass_iff.mp hfirst).reaches.trans (isSubclass_iff.mp hsecond).reaches

end ExprLang.Lineage
