import ExprLang.Proofs.Heap.Grounded
import Mathlib.Logic.Relation

/-! The writes to cells that there are, one by one. No write changes the kind of a cell. Arrays whose
items fit their type stay so, as long as code of the host leaves arrays alone. -/

namespace ExprLang

theorem Kinds.getElem?_of_not_mem {k new : Kinds} {a : Address} {s : CellKind}
    (hs : (k ++ new)[a]? = some s) (hnew : s ∉ new) : k[a]? = some s := by
  rw [List.getElem?_append] at hs
  split at hs
  · exact hs
  · exact absurd (List.mem_of_getElem? hs) hnew

theorem Kinds.getElem?_concat_of_ne {k : Kinds} {a : Address} {s : CellKind} (ha : a ≠ k.length) :
    (k ++ [s])[a]? = k[a]? := by
  rcases Nat.lt_or_gt_of_ne ha with hlt | hgt
  · exact List.getElem?_append_left hlt
  · rw [List.getElem?_eq_none (Nat.le_of_lt hgt), List.getElem?_eq_none]
    rw [List.length_append, List.length_singleton]
    exact hgt

namespace Heap

variable (h : Heap) {a b : Address} {c : Cell}

theorem cell_alloc : (h.alloc c).2.cells[h.cells.size]? = some c := by
  simp [alloc]

theorem cell_alloc_of_ne (ha : a ≠ h.cells.size) : (h.alloc c).2.cells[a]? = h.cells[a]? := by
  simp [alloc, Array.getElem?_push, ha]

theorem cell_put (ha : a < h.cells.size) : (h.put a c).cells[a]? = some c := by
  simp [put, ha]

theorem cell_put_of_ne (hab : b ≠ a) : (h.put b c).cells[a]? = h.cells[a]? := by
  simp [put, hab]

section Kept

variable {h} {g : Heap} (hcell : g.cells[a]? = h.cells[a]?)
include hcell

theorem items_of_cell : g.items a = h.items a := by rw [items, items, hcell]

theorem entries_of_cell : g.entries a = h.entries a := by rw [entries, entries, hcell]

theorem array_of_cell : g.array a = h.array a := by rw [array, array, hcell]

end Kept

end Heap

/-- Cells with their kinds. -/
structure Memory where
  kinds : Kinds
  heap : Heap
  grounded : heap.Grounded kinds

namespace Memory

theorem lt_of_kind {m : Memory} {a : Address} {s : CellKind} (ha : m.kinds[a]? = some s) : a < m.heap.cells.size := by
  rw [← m.grounded.length]
  exact (List.getElem?_eq_some_iff.mp ha).1

/-- What a new cell may hold. -/
inductive New (m : Memory) : CellKind → Cell → Prop
  | list (vs : List Value) : New m .list (.items vs)
  | set (vs : List Value) : New m .set (.items (m.heap.distinct vs))
  | map (es : List (Value × Value)) :
      New m .map (.entries (es.foldl (fun kept e => m.heap.putEntry kept e.1 e.2) []))
  | array (c : TypeRef) (vs : List Value) (takes : ∀ v ∈ vs, m.heap.Takes c v) :
      New m (.array c) (.array c vs)

/-- What a cell may hold instead of what it does. -/
inductive Rewritten (m : Memory) (a : Address) : CellKind → Cell → Prop
  | items (vs : List Value) : Rewritten m a .list (.items vs)
  | member (v : Value) (absent : m.heap.holds (m.heap.items a) v = false) :
      Rewritten m a .set (.items (m.heap.items a ++ [v]))
  | entry (key v : Value) :
      Rewritten m a .map (.entries (m.heap.putEntry (m.heap.entries a) key v))
  | element (c : TypeRef) (i : Nat) (v : Value) (takes : m.heap.Takes c v) :
      Rewritten m a (.array c) (.array c ((m.heap.array a).2.set i v))

/-- One write. Code of the host may write anything, but leaves cells of guarded kinds as they are and
adds none. -/
inductive Change (guarded : CellKind → Bool) (m m' : Memory) : Prop
  | alloc {s : CellKind} {c : Cell} (hc : m.New s c) (known : c.Grounded m.kinds s)
      (hk : m'.kinds = m.kinds ++ [s]) (hh : m'.heap = (m.heap.alloc c).2)
  | put {a : Address} {s : CellKind} {c : Cell} (ha : m.kinds[a]? = some s)
      (hc : m.Rewritten a s c) (known : c.Grounded m.kinds s) (hk : m'.kinds = m.kinds)
      (hh : m'.heap = m.heap.put a c)
  | foreign (new : Kinds) (hk : m'.kinds = m.kinds ++ new) (hl : m'.heap.lineage = m.heap.lineage)
      (hnew : ∀ s ∈ new, guarded s = false)
      (hold : ∀ (a : Address) (s : CellKind), m.kinds[a]? = some s → guarded s = true →
        m'.heap.cells[a]? = m.heap.cells[a]?)

/-- What one write means for one cell. -/
inductive Touched (guarded : CellKind → Bool) (m m' : Memory) (a : Address) : Prop
  | kept (hs : m'.kinds[a]? = m.kinds[a]?) (hcell : m'.heap.cells[a]? = m.heap.cells[a]?)
  | new {s : CellKind} {c : Cell} (hc : m.New s c) (known : c.Grounded m.kinds s)
      (hs : m'.kinds[a]? = some s) (hcell : m'.heap.cells[a]? = some c)
  | rewritten {s : CellKind} {c : Cell} (ha : m.kinds[a]? = some s) (hc : m.Rewritten a s c)
      (known : c.Grounded m.kinds s) (hs : m'.kinds[a]? = some s)
      (hcell : m'.heap.cells[a]? = some c)
  | foreign {s : CellKind} (hs : m'.kinds[a]? = some s) (free : guarded s = false)

/-- Any number of writes, one after the other. -/
abbrev Reaches (guarded : CellKind → Bool) : Memory → Memory → Prop :=
  Relation.ReflTransGen (Change guarded)

section Change

variable {g : CellKind → Bool} {m m' : Memory} (h : m.Change g m')
include h

theorem Change.kinds : m.kinds <+: m'.kinds := by
  cases h with
  | alloc _ _ hk _ | foreign _ hk =>
    rw [hk]
    exact List.prefix_append _ _
  | put _ _ _ hk _ => exact hk ▸ List.prefix_rfl

theorem Change.lineage : m'.heap.lineage = m.heap.lineage := by
  cases h with
  | alloc _ _ _ hh | put _ _ _ _ hh =>
    rw [hh]
    rfl
  | foreign _ _ hl => exact hl

theorem Change.retains : m.heap.Retains m'.heap :=
  m.grounded.retains m'.grounded h.kinds h.lineage

theorem Change.touched (a : Address) : m.Touched g m' a := by
  cases id h with
  | @alloc s c hc known hk hh =>
    by_cases ha : a = m.kinds.length
    · refine .new hc known ?_ ?_
      · rw [hk, ha, List.getElem?_concat_length]
      · rw [hh, ha, m.grounded.length, Heap.cell_alloc]
    · refine .kept ?_ ?_
      · rw [hk, Kinds.getElem?_concat_of_ne ha]
      · rw [hh, Heap.cell_alloc_of_ne _ (m.grounded.length ▸ ha)]
  | @put b s c hb hc known hk hh =>
    by_cases ha : b = a
    · subst ha
      exact .rewritten hb hc known (hk ▸ hb) (by rw [hh, Heap.cell_put _ (lt_of_kind hb)])
    · exact .kept (by rw [hk]) (by rw [hh, Heap.cell_put_of_ne _ ha])
  | foreign new hk hl hnew hold =>
    cases hs : m'.kinds[a]? with
    | none =>
      have hnone : m.kinds[a]? = none := by
        rw [List.getElem?_eq_none_iff] at hs ⊢
        exact h.kinds.length_le.trans hs
      rw [List.getElem?_eq_none_iff] at hs hnone
      refine .kept (by rw [List.getElem?_eq_none hs, List.getElem?_eq_none hnone]) ?_
      rw [Array.getElem?_eq_none (m'.grounded.length ▸ hs),
        Array.getElem?_eq_none (m.grounded.length ▸ hnone)]
    | some s =>
      cases hguard : g s with
      | false => exact .foreign hs hguard
      | true =>
        -- Foreign code adds no cells of this kind.
        have hs' : m.kinds[a]? = some s :=
          Kinds.getElem?_of_not_mem (hk ▸ hs) fun hmem => by simp [hnew s hmem] at hguard
        exact .kept (hs.trans hs'.symm) (hold a s hs' hguard)

end Change

section Reaches

variable {g : CellKind → Bool} {m m' : Memory} (h : m.Reaches g m')
include h

theorem Reaches.retains : m.heap.Retains m'.heap := by
  induction h with
  | refl => exact .refl _
  | tail _ hc ih => exact ih.trans hc.retains

theorem Reaches.kinds : m.kinds <+: m'.kinds := by
  induction h with
  | refl => exact List.prefix_rfl
  | tail _ hc ih => exact ih.trans hc.kinds

end Reaches

/-! ## What writes lead to -/

variable {g : CellKind → Bool} (m : Memory) {a : Address}

/-- A new cell is put behind all others. -/
theorem exists_alloc {s : CellKind} {c : Cell} (hc : m.New s c) (known : c.Grounded m.kinds s) :
    ∃ m', m.Change g m' ∧ m'.heap = (m.heap.alloc c).2 ∧
      m'.kinds[(m.heap.alloc c).1]? = some s := by
  obtain ⟨hh, hs⟩ := m.grounded.alloc (known.mono (List.prefix_append m.kinds [s]))
  exact ⟨⟨_, _, hh⟩, .alloc hc known rfl rfl, rfl, hs⟩

/-- A cell is replaced by one of its kind. -/
theorem exists_put {s : CellKind} {c : Cell} (ha : m.kinds[a]? = some s) (hc : m.Rewritten a s c)
    (known : c.Grounded m.kinds s) : ∃ m', m.Change g m' ∧ m'.heap = m.heap.put a c :=
  ⟨⟨_, _, m.grounded.put ha known⟩, .put ha hc known rfl rfl, rfl⟩

theorem newList_reached {vs : List Value} (hvs : ∀ v ∈ vs, v.Grounded m.kinds) :
    ∃ m', m.Change g m' ∧ m'.heap = (m.heap.newList vs).2 ∧
      (m.heap.newList vs).1.Grounded m'.kinds := by
  obtain ⟨m', hc, hh, hs⟩ := m.exists_alloc (.list vs) (.list hvs)
  exact ⟨m', hc, hh, Value.grounded_list hs⟩

theorem newSet_reached {vs : List Value} (hvs : ∀ v ∈ vs, v.Grounded m.kinds) :
    ∃ m', m.Change g m' ∧ m'.heap = (m.heap.newSet vs).2 ∧
      (m.heap.newSet vs).1.Grounded m'.kinds := by
  have known : ∀ v ∈ m.heap.distinct vs, v.Grounded m.kinds :=
    fun v hv => hvs v (m.heap.mem_of_mem_distinct hv)
  obtain ⟨m', hc, hh, hs⟩ := m.exists_alloc (.set vs) (.set known)
  exact ⟨m', hc, hh, Value.grounded_set hs⟩

theorem newMap_reached {es : List (Value × Value)}
    (hes : ∀ e ∈ es, e.1.Grounded m.kinds ∧ e.2.Grounded m.kinds) :
    ∃ m', m.Change g m' ∧ m'.heap = (m.heap.newMap es).2 ∧
      (m.heap.newMap es).1.Grounded m'.kinds := by
  obtain ⟨m', hc, hh, hs⟩ := m.exists_alloc (.map es) (.map (m.heap.forall_mem_putEntries hes))
  exact ⟨m', hc, hh, Value.grounded_map hs⟩

theorem newArray_reached {c : TypeRef} {vs : List Value} (hvs : ∀ v ∈ vs, v.Grounded m.kinds)
    (takes : ∀ v ∈ vs, m.heap.Takes c v) :
    ∃ m', m.Change g m' ∧ m'.heap = (m.heap.newArray c vs).2 ∧
      (m.heap.newArray c vs).1.Grounded m'.kinds := by
  obtain ⟨m', hc, hh, hs⟩ := m.exists_alloc (.array c vs takes) (.array hvs)
  exact ⟨m', hc, hh, Value.grounded_array hs⟩

theorem putItems_reached (ha : m.kinds[a]? = some .list) {vs : List Value}
    (hvs : ∀ v ∈ vs, v.Grounded m.kinds) :
    ∃ m', m.Change g m' ∧ m'.heap = m.heap.put a (.items vs) :=
  m.exists_put ha (.items vs) (.list hvs)

theorem addMember_reached (ha : m.kinds[a]? = some .set) {v : Value} (hv : v.Grounded m.kinds)
    (absent : m.heap.holds (m.heap.items a) v = false) :
    ∃ m', m.Change g m' ∧ m'.heap = m.heap.put a (.items (m.heap.items a ++ [v])) :=
  m.exists_put ha (.member v absent)
    (.set (List.forall_mem_append.mpr ⟨m.grounded.items a, List.forall_mem_singleton.mpr hv⟩))

theorem putEntry_reached (ha : m.kinds[a]? = some .map) {key v : Value}
    (hkey : key.Grounded m.kinds) (hv : v.Grounded m.kinds) :
    ∃ m', m.Change g m' ∧
      m'.heap = m.heap.put a (.entries (m.heap.putEntry (m.heap.entries a) key v)) :=
  m.exists_put ha (.entry key v)
    (.map (m.heap.forall_mem_putEntry (m.grounded.entries a) hkey hv))

theorem putElement_reached {c : TypeRef} (ha : m.kinds[a]? = some (.array c)) (i : Nat) {v : Value}
    (hv : v.Grounded m.kinds) (takes : m.heap.Takes c v) :
    ∃ m', m.Change g m' ∧
      m'.heap = m.heap.put a (.array c ((m.heap.array a).2.set i v)) := by
  refine m.exists_put ha (.element c i v takes) (.array fun x hx => ?_)
  rcases List.mem_or_eq_of_mem_set hx with hx | rfl
  · exact m.grounded.array_items a x hx
  · exact hv

end Memory

/-! ## Arrays whose items fit their type -/

def CellKind.isArray : CellKind → Bool
  | .array _ => true
  | _ => false

namespace Heap

variable {h : Heap} {a : Address}

/-- Every item of an array fits the type of its items. -/
def ArraysTyped (h : Heap) : Prop := ∀ a, ∀ v ∈ (h.array a).2, h.Takes (h.array a).1 v

theorem array_eq {t : TypeRef} {vs : List Value}
    (hcell : h.cells[a]? = some (.array t vs)) : h.array a = (t, vs) := by
  rw [array, hcell]

/-- A cell of another kind is an array without items. -/
theorem array_items_eq_nil (hcell : ∀ t vs, h.cells[a]? ≠ some (.array t vs)) :
    (h.array a).2 = [] := by
  unfold array
  split
  · next t vs ha => exact absurd ha (hcell t vs)
  · rfl

end Heap

namespace Memory

variable {m m' : Memory} {a : Address}

section Change

variable (h : m.Change CellKind.isArray m')
include h

/-- Values that an array takes are still taken after a write. -/
theorem Change.takes {t : TypeRef} {v : Value} (hv : v.Grounded m.kinds)
    (takes : m.heap.Takes t v) : m'.heap.Takes t v :=
  (Heap.takes_retained h.retains (hv.livesIn m.grounded)).mpr takes

theorem Change.takes_kept (ht : m.heap.ArraysTyped)
    (hcell : m'.heap.cells[a]? = m.heap.cells[a]?) :
    ∀ v ∈ (m'.heap.array a).2, m'.heap.Takes (m'.heap.array a).1 v := by
  rw [Heap.array_of_cell hcell]
  exact fun v hv => h.takes (m.grounded.array_items a v hv) (ht a v hv)

/-- The items of a cell that was written fit, where the write checked those that are new. -/
theorem Change.takes_written {s : CellKind} {c : Cell} (known : c.Grounded m.kinds s)
    (hcell : m'.heap.cells[a]? = some c)
    (hc : ∀ t vs, c = .array t vs → ∀ v ∈ vs, m.heap.Takes t v) :
    ∀ v ∈ (m'.heap.array a).2, m'.heap.Takes (m'.heap.array a).1 v := by
  by_cases harray : ∃ t vs, c = .array t vs
  · obtain ⟨t, vs, rfl⟩ := harray
    cases known with
    | array hvs =>
      rw [Heap.array_eq hcell]
      exact fun v hv => h.takes (hvs v hv) (hc t vs rfl v hv)
  · rw [Heap.array_items_eq_nil fun t vs ht => harray ⟨t, vs, Option.some.inj (hcell.symm.trans ht)⟩]
    exact nofun

theorem Change.arraysTyped (ht : m.heap.ArraysTyped) :
    m'.heap.ArraysTyped := by
  intro a
  cases h.touched a with
  | kept _ hcell => exact h.takes_kept ht hcell
  | new hc known _ hcell =>
    refine h.takes_written known hcell ?_
    rintro t vs rfl
    cases hc with
    | array _ _ takes => exact takes
  | rewritten ha hc known _ hcell =>
    refine h.takes_written known hcell ?_
    rintro t vs rfl
    cases hc with
    | element _ i x takes =>
      intro v hv
      rcases List.mem_or_eq_of_mem_set hv with hv | rfl
      · have hold := ht a v hv
        rwa [m.grounded.array_component ha] at hold
      · exact takes
  | foreign hs hfree =>
    rw [Heap.array_items_eq_nil]
    · exact nofun
    · intro t vs hcell
      obtain ⟨s, hs', hground⟩ := m'.grounded.kind hcell
      cases hground
      cases hs.symm.trans hs'
      cases hfree

end Change

theorem Reaches.arraysTyped (h : m.Reaches CellKind.isArray m') (ht : m.heap.ArraysTyped) :
    m'.heap.ArraysTyped := by
  induction h with
  | refl => exact ht
  | tail _ hc ih => exact hc.arraysTyped ih

end Memory

end ExprLang
