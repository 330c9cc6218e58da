import ExprLang.Proofs.Heap.Inside

/-! Which cells refer to which. No write leaves a cell that refers to itself, however indirectly, but
one that stores in a cell what leads to that very cell. -/

namespace ExprLang

section Graph

open Relation

variable {α : Type} {r s : α → α → Prop} {x y : α}

/-- A path to the only source of new edges needs none of them. -/
theorem reflTransGen_of_source (hnew : ∀ y z, s y z → r y z ∨ y = x) (h : ReflTransGen s y x) :
    ReflTransGen r y x := by
  induction h using ReflTransGen.head_induction_on with
  | refl => exact .refl
  | head hyz _ ih =>
    rcases hnew _ _ hyz with hyz | rfl
    · exact .head hyz ih
    · exact .refl

/-- New edges from one source close no cycle, unless the source is reached from the end of one. -/
theorem acyclic_of_source (hnew : ∀ y z, s y z → r y z ∨ y = x) (hr : ∀ y, ¬TransGen r y y)
    (hx : ∀ y, s x y → ¬ReflTransGen r y x) (y : α) : ¬TransGen s y y := by
  have hsource : ¬TransGen s x x := by
    intro hcycle
    obtain ⟨z, hxz, hzx⟩ := TransGen.head'_iff.mp hcycle
    exact hx z hxz (reflTransGen_of_source hnew hzx)
  have hpass : ∀ z, TransGen s y z → TransGen r y z ∨ ReflTransGen s y x ∧ TransGen s x z := by
    intro z h
    induction h with
    | single hyz =>
      rcases hnew _ _ hyz with hold | rfl
      · exact .inl (.single hold)
      · exact .inr ⟨.refl, .single hyz⟩
    | tail hyz hz ih =>
      rcases ih with ih | ⟨hyx, hxz⟩
      · rcases hnew _ _ hz with hold | rfl
        · exact .inl (ih.tail hold)
        · exact .inr ⟨hyz.to_reflTransGen, .single hz⟩
      · exact .inr ⟨hyx, hxz.tail hz⟩
  intro hcycle
  rcases hpass y hcycle with hold | ⟨hyx, hxy⟩
  · exact hr y hold
  · exact hsource (hxy.trans_left hyx)

end Graph

/-- What the cell of a collection holds. -/
def Cell.held : Cell → List Value
  | .items vs => vs
  | .entries es => es.flatMap fun e => [e.1, e.2]
  | .array _ vs => vs
  | .object _ => []

theorem Cell.Grounded.held {k : Kinds} {s : CellKind} {c : Cell} (hc : c.Grounded k s) :
    ∀ w ∈ c.held, w.Grounded k := by
  cases hc with
  | list h | set h | array h => exact h
  | map h =>
    intro w hw
    obtain ⟨e, he, hw⟩ := List.mem_flatMap.mp hw
    rcases List.mem_pair.mp hw with rfl | rfl
    · exact (h e he).1
    · exact (h e he).2
  | object => exact nofun

namespace Heap

variable {h : Heap} {v w : Value} {a b : Address}

/-- What the collection at an address holds, and nothing where there is none. -/
def held (h : Heap) (a : Address) : List Value := (h.cells[a]?.map Cell.held).getD []

/-- The first cell holds the collection of the second. -/
def Refers (h : Heap) (a b : Address) : Prop := ∃ w ∈ h.held a, w.cell? = some b

/-- No collection contains itself. -/
def Untangled (h : Heap) : Prop := ∀ a, ¬Relation.TransGen h.Refers a a

/-- The cell is the value's own or lies in the value. -/
def LeadsTo (h : Heap) (w : Value) (a : Address) : Prop :=
  ∃ b, w.cell? = some b ∧ Relation.ReflTransGen h.Refers b a

theorem held_of_cell {c : Cell} (hc : h.cells[a]? = some c) : h.held a = c.held := by
  rw [held, hc]
  rfl

theorem held_of_sameCell {g : Heap} (hcell : g.cells[a]? = h.cells[a]?) : g.held a = h.held a := by
  rw [held, held, hcell]

theorem refers_elsewhere {g : Heap} {x y z : Address}
    (hcell : ∀ a, a ≠ x → g.cells[a]? = h.cells[a]?) (hyz : h.Refers y z) :
    g.Refers y z ∨ y = x := by
  by_cases hy : y = x
  · exact .inr hy
  · rw [Refers, held_of_sameCell (hcell y hy)]
    exact .inl hyz

theorem held_of_contents (ha : v.cell? = some a) (hw : w ∈ h.contents v) : w ∈ h.held a := by
  cases hc : h.cells[a]? with
  | none =>
    cases v <;> cases ha <;> simp [contents, items, entries, array, hc] at hw
  | some c =>
    rw [held_of_cell hc]
    cases v <;> cases ha <;> cases c <;>
      simp_all [contents, items, entries, array, Cell.held]

/-- What leads from value to value leads from cell to cell. -/
theorem transGen_refers (h : Heap) (hvw : Relation.TransGen (fun v w => w ∈ h.contents v) v w)
    (hb : w.cell? = some b) : ∃ a, v.cell? = some a ∧ Relation.TransGen h.Refers a b := by
  induction hvw using Relation.TransGen.head_induction_on with
  | single hw =>
    obtain ⟨a, ha⟩ := exists_cell_of_contents hw
    exact ⟨a, ha, .single ⟨_, held_of_contents ha hw, hb⟩⟩
  | head hu _ ih =>
    obtain ⟨a, ha⟩ := exists_cell_of_contents hu
    obtain ⟨c, hc, hcb⟩ := ih
    exact ⟨a, ha, .head ⟨_, held_of_contents ha hu, hc⟩ hcb⟩

theorem Untangled.acyclic (hh : h.Untangled) (v : Value) : h.Acyclic v := by
  intro w _ hcycle
  obtain ⟨u, hu, -⟩ := Relation.TransGen.head'_iff.mp hcycle
  obtain ⟨b, hb⟩ := exists_cell_of_contents hu
  obtain ⟨a, ha, hab⟩ := h.transGen_refers hcycle hb
  obtain rfl := Option.some.inj (ha.symm.trans hb)
  exact hh a hab

/-- Every level takes a cell of its own that holds something. -/
theorem Untangled.nests_of_cells {n : Nat} {cells : Finset Address} (hh : h.Untangled)
    (hcard : cells.card ≤ n) (hcells : ∀ b, h.LeadsTo v b → ∀ w ∈ h.held b, b ∈ cells) :
    h.Nests (n + 1) v := by
  induction n generalizing cells v with
  | zero =>
    intro w hw
    obtain ⟨a, ha⟩ := exists_cell_of_contents hw
    have hmem := hcells a ⟨a, ha, .refl⟩ w (held_of_contents ha hw)
    rw [Finset.card_eq_zero.mp (Nat.le_zero.mp hcard)] at hmem
    cases hmem
  | succ n ih =>
    intro w hw
    obtain ⟨a, ha⟩ := exists_cell_of_contents hw
    have hheld := held_of_contents ha hw
    have hcard' : (cells.erase a).card ≤ n := by
      rw [Finset.card_erase_of_mem (hcells a ⟨a, ha, .refl⟩ w hheld)]
      omega
    refine ih hcard' ?_
    rintro b ⟨c, hwc, hcb⟩ u hu
    have hac : h.Refers a c := ⟨w, hheld, hwc⟩
    refine Finset.mem_erase.mpr ⟨?_, hcells b ⟨a, ha, .head hac hcb⟩ u hu⟩
    rintro rfl
    exact hh b (.head' hac hcb)

/-- Where nothing contains itself, values nest no deeper than there are cells. -/
theorem Untangled.nests (hh : h.Untangled) (v : Value) : h.Nests (h.cells.size + 1) v := by
  refine hh.nests_of_cells (Finset.card_range _).le fun b _ w hw => Finset.mem_range.mpr ?_
  by_contra hlt
  rw [held, Array.getElem?_eq_none (Nat.le_of_not_lt hlt)] at hw
  cases hw

/-- Where collections refer down a ranking only, none contains itself. -/
theorem untangled_of_rank (rank : Address → Nat) (hrank : ∀ a b, h.Refers a b → rank b < rank a) :
    h.Untangled := by
  have hdown : ∀ a b, Relation.TransGen h.Refers a b → rank b < rank a := by
    intro a b hab
    induction hab with
    | single hab => exact hrank _ _ hab
    | tail _ hbc ih => exact (hrank _ _ hbc).trans ih
  exact fun a hcycle => Nat.lt_irrefl _ (hdown a a hcycle)

end Heap

/-- A list, a set, a map or an array. -/
def CellKind.isCollection : CellKind → Bool
  | .object _ => false
  | _ => true

namespace Memory

variable {m m' : Memory} {a : Address}

/-- A collection is changed to hold a value in which it lies itself. -/
def Knot (m m' : Memory) : Prop :=
  ∃ a s c, m.kinds[a]? = some s ∧ m.Rewritten a s c ∧ m'.heap = m.heap.put a c ∧
    ∃ w ∈ c.held, w ∉ m.heap.held a ∧ m.heap.LeadsTo w a

theorem held_eq_nil (ha : ∀ s, m.kinds[a]? = some s → s.isCollection = false) :
    m.heap.held a = [] := by
  cases hc : m.heap.cells[a]? with
  | none => rw [Heap.held, hc]; rfl
  | some c =>
    obtain ⟨s, hs, hground⟩ := m.grounded.kind hc
    have hkind := ha s hs
    rw [Heap.held_of_cell hc]
    cases hground with
    | object => rfl
    | _ => cases hkind

/-- What one write does to collections: nothing, or it adds one, or changes one. -/
theorem Change.collections (h : m.Change CellKind.isCollection m') :
    (∀ a, m'.heap.held a = m.heap.held a) ∨
      (∃ s c, c.Grounded m.kinds s ∧ m'.heap = (m.heap.alloc c).2) ∨
      ∃ a s c, m.kinds[a]? = some s ∧ m.Rewritten a s c ∧ m'.heap = m.heap.put a c := by
  cases h with
  | @alloc s c hc known hk hh => exact .inr (.inl ⟨s, c, known, hh⟩)
  | @put a s c ha hc known hk hh => exact .inr (.inr ⟨a, s, c, ha, hc, hh⟩)
  | foreign new hk hl hnew hold =>
    refine .inl fun a => ?_
    by_cases ha : ∃ s, m.kinds[a]? = some s ∧ s.isCollection = true
    · obtain ⟨s, hs, hcollection⟩ := ha
      exact Heap.held_of_sameCell (hold a s hs hcollection)
    · have hfree : ∀ s, m.kinds[a]? = some s → s.isCollection = false := fun s hs =>
        Bool.eq_false_iff.mpr fun hcollection => ha ⟨s, hs, hcollection⟩
      have hfree' : ∀ s, m'.kinds[a]? = some s → s.isCollection = false := by
        intro s hs
        by_cases hmem : s ∈ new
        · exact hnew s hmem
        · exact hfree s (Kinds.getElem?_of_not_mem (hk ▸ hs) hmem)
      rw [held_eq_nil hfree, held_eq_nil hfree']

theorem held_known (m : Memory) (a : Address) : ∀ w ∈ m.heap.held a, w.Grounded m.kinds := by
  intro w hw
  cases hc : m.heap.cells[a]? with
  | none =>
    rw [Heap.held, hc] at hw
    cases hw
  | some c =>
    rw [Heap.held_of_cell hc] at hw
    obtain ⟨s, -, hground⟩ := m.grounded.kind hc
    exact hground.held w hw

/-- What known values lead to is there. -/
theorem lt_of_leadsTo {w : Value} (hw : w.Grounded m.kinds) (hwa : m.heap.LeadsTo w a) :
    a < m.heap.cells.size := by
  obtain ⟨b, hb, hba⟩ := hwa
  rw [← m.grounded.length]
  rcases hba.cases_tail with rfl | ⟨c, -, u, hu, hua⟩
  · exact hw.has.lt_of_cell hb
  · exact (m.held_known c u hu).has.lt_of_cell hua

/-- Writes tangle what is not tangled exactly by tying a knot. -/
theorem Change.untangled_iff (h : m.Change CellKind.isCollection m') (hm : m.heap.Untangled) :
    m'.heap.Untangled ↔ ¬m.Knot m' := by
  constructor
  · rintro hm' ⟨a, s, c, ha, -, hh, w, hw, -, b, hb, hba⟩
    have hheld : m'.heap.held a = c.held :=
      hh ▸ Heap.held_of_cell (m.heap.cell_put (lt_of_kind ha))
    have hpath : Relation.ReflTransGen m'.heap.Refers b a := by
      refine reflTransGen_of_source (fun y z hyz => ?_) hba
      exact Heap.refers_elsewhere (fun b hb => hh ▸ m.heap.cell_put_of_ne hb.symm) hyz
    exact hm' a (.head' ⟨w, hheld ▸ hw, hb⟩ hpath)
  · intro hknot
    rcases h.collections with hsame | ⟨s, c, known, hh⟩ | ⟨a, s, c, ha, hc, hh⟩
    · have hrefers : m'.heap.Refers = m.heap.Refers := by
        funext a b
        rw [Heap.Refers, Heap.Refers, hsame a]
      rwa [Heap.Untangled, hrefers]
    · -- What a new collection holds does not lead to it.
      refine acyclic_of_source (x := m.heap.cells.size) (fun y z hyz => ?_) hm ?_
      · exact Heap.refers_elsewhere (fun b hb => hh ▸ (m.heap.cell_alloc_of_ne hb).symm) hyz
      · rintro b ⟨w, hw, hwb⟩ hpath
        rw [hh, Heap.held_of_cell m.heap.cell_alloc] at hw
        exact Nat.lt_irrefl _ (lt_of_leadsTo (known.held w hw) ⟨b, hwb, hpath⟩)
    · refine acyclic_of_source (x := a) (fun y z hyz => ?_) hm ?_
      · exact Heap.refers_elsewhere (fun b hb => hh ▸ (m.heap.cell_put_of_ne hb.symm).symm) hyz
      · rintro b ⟨w, hw, hwb⟩ hpath
        rw [hh, Heap.held_of_cell (m.heap.cell_put (lt_of_kind ha))] at hw
        by_cases hold : w ∈ m.heap.held a
        · exact hm a (.head' ⟨w, hold, hwb⟩ hpath)
        · exact hknot ⟨a, s, c, ha, hc, hh, w, hw, hold, b, hwb, hpath⟩

/-- If nothing contained itself and now something does, a write has tied a knot on the way. -/
theorem Reaches.untangled_or_knot (h : m.Reaches CellKind.isCollection m') (hm : m.heap.Untangled) :
    m'.heap.Untangled ∨ ∃ m₁ m₂, m.Reaches CellKind.isCollection m₁ ∧ m₁.heap.Untangled ∧
      m₁.Change CellKind.isCollection m₂ ∧ m₁.Knot m₂ ∧ m₂.Reaches CellKind.isCollection m' := by
  induction h with
  | refl => exact .inl hm
  | @tail m₁ m₂ hreach hc ih =>
    rcases ih with hm₁ | ⟨n₁, n₂, h₁, hn₁, hchange, hknot, h₂⟩
    · by_cases hknot : m₁.Knot m₂
      · exact .inr ⟨m₁, m₂, hreach, hm₁, hc, hknot, .refl⟩
      · exact .inl ((hc.untangled_iff hm₁).mpr hknot)
    · exact .inr ⟨n₁, n₂, h₁, hn₁, hchange, hknot, h₂.tail hc⟩

end Memory

end ExprLang
