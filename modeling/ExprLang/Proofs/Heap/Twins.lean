import ExprLang.Proofs.Heap.Rename
import ExprLang.Proofs.Heap.Untangled

/-! Two heaps that have grown alike from one memory, the second one with some more cells in between. -/

namespace ExprLang

variable {f : Address → Address} {g h : Heap} {d n n' : Nat} {v w : Value} {c : Cell}

/-! ## Values whose cells are there -/

/-- The cell that the value names, if any, is one of the first `n`. -/
def Value.Below (n : Nat) (v : Value) : Prop := ∀ a, v.address? = some a → a < n

theorem Value.Below.mono (hv : v.Below n) (hn : n ≤ n') : v.Below n' :=
  fun a ha => Nat.lt_of_lt_of_le (hv a ha) hn

theorem Value.below_of_isAtom (hv : v.isAtom = true) : v.Below n := by
  intro a ha
  cases v <;> cases ha <;> cases hv

theorem Value.Grounded.below {k : Kinds} (hv : v.Grounded k) : v.Below k.length := by
  intro a ha
  have hhas := hv.has
  cases v with
  | list b | set b | map b =>
    cases ha
    exact (List.getElem?_eq_some_iff.mp hhas).1
  | array b | object b =>
    cases ha
    obtain ⟨s, hs⟩ := hhas
    exact (List.getElem?_eq_some_iff.mp hs).1
  | _ => cases ha

theorem Value.Below.rename_eq (hv : v.Below n) (hf : ∀ a, a < n → f a = a) : v.rename f = v :=
  rename_of_address fun a ha => hf a (hv a ha)

/-- All values in a cell. -/
def Cell.values : Cell → List Value
  | .items vs => vs
  | .entries es => es.flatMap fun e => [e.1, e.2]
  | .array _ vs => vs
  | .object o => o.fields.map (·.2)

theorem Cell.mem_values_of_held (hv : v ∈ c.held) : v ∈ c.values := by
  cases c with
  | object => cases hv
  | _ => exact hv

theorem Cell.Grounded.values {k : Kinds} {s : CellKind} (hc : c.Grounded k s) :
    ∀ v ∈ c.values, v.Grounded k := by
  cases hc with
  | list hvs | set hvs | array hvs => exact hvs
  | map hes => exact Cell.Grounded.held (.map hes)
  | object hfields =>
    intro v hv
    obtain ⟨e, he, rfl⟩ := List.mem_map.mp hv
    exact hfields e he

theorem Cell.rename_eq (hc : ∀ v ∈ c.values, v.rename f = v) : c.rename f = c := by
  have hall {α : Type} {k : α → α} {xs : List α} (hxs : ∀ x ∈ xs, k x = x) : xs.map k = xs :=
    (List.map_congr_left hxs).trans (List.map_id' xs)
  cases c with
  | items vs => exact congrArg items (hall hc)
  | array t vs => exact congrArg (array t) (hall hc)
  | entries es =>
    refine congrArg entries (hall fun e he => Prod.ext ?_ ?_)
    · exact hc e.1 (List.mem_flatMap.mpr ⟨e, he, by simp⟩)
    · exact hc e.2 (List.mem_flatMap.mpr ⟨e, he, by simp⟩)
  | object o =>
    have hfields : o.fields.map (fun e => (e.1, e.2.rename f)) = o.fields :=
      hall fun e he => Prod.ext rfl (hc e.2 (List.mem_map_of_mem he))
    rw [rename, HostObject.rename, hfields]

/-- All values in cells name cells that are there. -/
def Heap.Closed (h : Heap) : Prop :=
  ∀ (a : Address) (c : Cell), h.cells[a]? = some c → ∀ v ∈ c.values, v.Below h.cells.size

namespace Heap

theorem Grounded.closed {k : Kinds} (hh : h.Grounded k) : h.Closed := by
  intro a c hc v hv
  obtain ⟨s, -, hground⟩ := hh.kind hc
  exact hh.length ▸ (hground.values v hv).below

namespace Closed

variable {a : Address} (hh : h.Closed)
include hh

theorem items (a : Address) : ∀ v ∈ h.items a, v.Below h.cells.size := by
  unfold Heap.items
  split
  · next vs hc => exact hh a _ hc
  · exact nofun

theorem entries (a : Address) :
    ∀ e ∈ h.entries a, e.1.Below h.cells.size ∧ e.2.Below h.cells.size := by
  unfold Heap.entries
  split
  · next es hc =>
    intro e he
    exact ⟨hh a _ hc e.1 (List.mem_flatMap.mpr ⟨e, he, by simp⟩),
      hh a _ hc e.2 (List.mem_flatMap.mpr ⟨e, he, by simp⟩)⟩
  · exact nofun

theorem array_items (a : Address) : ∀ v ∈ (h.array a).2, v.Below h.cells.size := by
  unfold Heap.array
  split
  · next c vs hc => exact hh a _ hc
  · exact nofun

theorem object {o : HostObject} (ho : h.object? a = some o) :
    ∀ e ∈ o.fields, e.2.Below h.cells.size := by
  unfold Heap.object? at ho
  split at ho
  · next hc =>
    cases ho
    exact fun e he => hh a _ hc e.2 (List.mem_map_of_mem he)
  · cases ho

theorem alloc (hc : ∀ v ∈ c.values, v.Below h.cells.size) : (h.alloc c).2.Closed := by
  have hle : h.cells.size ≤ (h.alloc c).2.cells.size := by simp [Heap.alloc]
  intro a b hb v hv
  by_cases ha : a = h.cells.size
  · rw [ha, h.cell_alloc] at hb
    cases hb
    exact (hc v hv).mono hle
  · rw [h.cell_alloc_of_ne ha] at hb
    exact (hh a b hb v hv).mono hle

/-- Cells refer to cells that are there. -/
theorem lt_of_refers {b : Address} (hab : h.Refers a b) : b < h.cells.size := by
  obtain ⟨w, hw, hb⟩ := hab
  have haddress : w.address? = some b := by
    cases w <;> first | exact hb | cases hb
  cases hc : h.cells[a]? with
  | none =>
    rw [Heap.held, hc] at hw
    cases hw
  | some c =>
    rw [Heap.held_of_cell hc] at hw
    exact hh a c hc w (Cell.mem_values_of_held hw) b haddress

/-- A new cell holds only what does not lead to it. -/
theorem untangled_alloc (hu : h.Untangled) (hc : ∀ v ∈ c.values, v.Below h.cells.size) :
    (h.alloc c).2.Untangled := by
  refine acyclic_of_source (x := h.cells.size) (fun y z hyz => ?_) hu ?_
  · exact Heap.refers_elsewhere (fun b hb => (h.cell_alloc_of_ne hb).symm) hyz
  · rintro b ⟨w, hw, hwb⟩ hpath
    rw [Heap.held_of_cell h.cell_alloc] at hw
    have hb : b < h.cells.size := by
      refine hc w (Cell.mem_values_of_held hw) b ?_
      cases w <;> first | exact hwb | cases hwb
    rcases hpath.cases_tail with heq | ⟨y, -, hy⟩
    · exact Nat.ne_of_lt hb heq.symm
    · exact Nat.lt_irrefl _ (hh.lt_of_refers hy)

end Closed

end Heap

/-! ## More cells in between -/

namespace Memory

/-- The address of a cell once there are `d` more cells behind the ones of the memory. -/
def shifted (m : Memory) (d : Nat) (a : Address) : Address :=
  if a < m.heap.cells.size then a else a + d

/-- The first heap holds the cells of the memory as they were, and later ones behind them. The second
heap holds the same, but with `d` cells more in front of the later ones. -/
structure Twins (m : Memory) (d : Nat) (g h : Heap) : Prop where
  lineage : g.lineage = m.heap.lineage
  old (a : Address) : a < m.heap.cells.size → g.cells[a]? = m.heap.cells[a]?
  grown : m.heap.cells.size ≤ g.cells.size
  closed : g.Closed
  renames : g.Renames (m.shifted d) h
  size : h.cells.size = g.cells.size + d
  /-- The text of a value that contains itself is cut off after as many levels as there are cells. -/
  ends : d = 0 ∨ g.Untangled

variable {m : Memory}

theorem shifted_of_lt {a : Address} (ha : a < m.heap.cells.size) : m.shifted d a = a := if_pos ha

theorem shifted_of_le {a : Address} (ha : m.heap.cells.size ≤ a) : m.shifted d a = a + d :=
  if_neg (Nat.not_lt_of_le ha)

theorem shifted_injective : Function.Injective (m.shifted d) := by
  have hne {a b : Address} (ha : a < m.heap.cells.size) (hb : m.heap.cells.size ≤ b) :
      a ≠ b + d := Nat.ne_of_lt (Nat.lt_of_lt_of_le ha (Nat.le_add_right_of_le hb))
  intro a b hab
  rcases Nat.lt_or_ge a m.heap.cells.size with ha | ha <;>
    rcases Nat.lt_or_ge b m.heap.cells.size with hb | hb
  · rwa [shifted_of_lt ha, shifted_of_lt hb] at hab
  · rw [shifted_of_lt ha, shifted_of_le hb] at hab
    exact absurd hab (hne ha hb)
  · rw [shifted_of_le ha, shifted_of_lt hb] at hab
    exact absurd hab.symm (hne hb ha)
  · rw [shifted_of_le ha, shifted_of_le hb] at hab
    exact Nat.add_right_cancel hab

/-- Known values are the same in both heaps. -/
theorem rename_known (hv : v.Grounded m.kinds) : v.rename (m.shifted d) = v :=
  hv.below.rename_eq fun _ ha => shifted_of_lt (m.grounded.length ▸ ha)

/-- From the memory on, and from there with `d` more cells. -/
theorem twins_of_kept (hl : h.lineage = m.heap.lineage)
    (hold : ∀ a, a < m.heap.cells.size → h.cells[a]? = m.heap.cells[a]?)
    (hsize : h.cells.size = m.heap.cells.size + d) (hends : d = 0 ∨ m.heap.Untangled) :
    m.Twins d m.heap h where
  lineage := rfl
  old _ _ := rfl
  grown := le_rfl
  closed := m.grounded.closed
  size := hsize
  ends := hends
  renames := by
    refine ⟨hl, shifted_injective, fun a => ?_⟩
    by_cases ha : a < m.heap.cells.size
    · rw [shifted_of_lt ha, hold a ha, Array.getElem?_eq_getElem ha, Option.map_some]
      refine congrArg some (Cell.rename_eq fun v hv => ?_).symm
      have hbelow := m.grounded.closed a _ (Array.getElem?_eq_getElem ha) v hv
      exact hbelow.rename_eq fun _ => shifted_of_lt
    · rw [shifted_of_le (Nat.le_of_not_lt ha), Array.getElem?_eq_none (Nat.le_of_not_lt ha),
        Array.getElem?_eq_none (hsize ▸ Nat.add_le_add_right (Nat.le_of_not_lt ha) d)]
      rfl

namespace Twins

variable (ht : m.Twins d g h)
include ht

theorem resembles (v : Value) : g.Resembles h v (v.rename (m.shifted d)) := by
  have hsize := ht.size
  refine ht.renames.resembles (by omega) ?_
  rcases ht.ends with rfl | hu
  · exact .inl hsize
  · exact .inr (hu.nests v)

theorem compares (v w : Value) :
    g.Compares h v w (v.rename (m.shifted d)) (w.rename (m.shifted d)) := by
  have hsize := ht.size
  rcases ht.ends with rfl | hu
  · exact ht.renames.compares (by omega) (.inl hsize) (.inl hsize)
  · exact ht.renames.compares (by omega) (.inr (hu.nests v)) (.inr (hu.nests w))

theorem equal (v w : Value) :
    h.equal (v.rename (m.shifted d)) (w.rename (m.shifted d)) = g.equal v w :=
  (ht.compares v w).equal

theorem holds (vs : List Value) (v : Value) :
    h.holds (vs.map (Value.rename (m.shifted d))) (v.rename (m.shifted d)) = g.holds vs v := by
  simp only [Heap.holds, List.any_map, Function.comp_def, ht.equal]

theorem distinct (vs : List Value) :
    h.distinct (vs.map (Value.rename (m.shifted d))) =
      (g.distinct vs).map (Value.rename (m.shifted d)) := by
  rw [Heap.distinct, List.foldl_map]
  refine @List.foldl_hom _ _ _ (List.map (Value.rename (m.shifted d))) _ _ vs [] fun kept v => ?_
  rw [ht.holds]
  split
  · rfl
  · rw [List.map_append, List.map_singleton]

theorem lookup? (es : List (Value × Value)) (k : Value) :
    h.lookup? (es.map (renameEntry (m.shifted d))) (k.rename (m.shifted d)) =
      (g.lookup? es k).map (Value.rename (m.shifted d)) := by
  simp only [Heap.lookup?, List.find?_map, Option.map_map]
  simp only [Function.comp_def, renameEntry, ht.equal]

theorem putEntry (es : List (Value × Value)) (k v : Value) :
    h.putEntry (es.map (renameEntry (m.shifted d))) (k.rename (m.shifted d))
        (v.rename (m.shifted d)) =
      (g.putEntry es k v).map (renameEntry (m.shifted d)) := by
  induction es with
  | nil => rfl
  | cons e es ih =>
    rw [List.map_cons, Heap.putEntry, Heap.putEntry, renameEntry, ht.equal, ih]
    split <;> rfl

theorem putEntries (es : List (Value × Value)) :
    (es.map (renameEntry (m.shifted d))).foldl (fun kept e => h.putEntry kept e.1 e.2) [] =
      (es.foldl (fun kept e => g.putEntry kept e.1 e.2) []).map (renameEntry (m.shifted d)) := by
  rw [List.foldl_map]
  exact @List.foldl_hom _ _ _ (List.map (renameEntry (m.shifted d))) _ _ es []
    fun kept e => ht.putEntry kept e.1 e.2

/-! ## New cells -/

theorem size_eq : m.shifted d g.cells.size = h.cells.size := by
  rw [shifted_of_le ht.grown, ht.size]

theorem alloc (hc : ∀ v ∈ c.values, v.Below g.cells.size) :
    m.Twins d (g.alloc c).2 (h.alloc (c.rename (m.shifted d))).2 where
  lineage := ht.lineage
  old a ha := (g.cell_alloc_of_ne (Nat.ne_of_lt (Nat.lt_of_lt_of_le ha ht.grown))).trans (ht.old a ha)
  grown := ht.grown.trans (by simp [Heap.alloc])
  closed := ht.closed.alloc hc
  renames := by
    refine ⟨ht.renames.lineage, shifted_injective, fun a => ?_⟩
    by_cases ha : a = g.cells.size
    · rw [ha, ht.size_eq, g.cell_alloc, h.cell_alloc]
      rfl
    · have hne : m.shifted d a ≠ h.cells.size := ht.size_eq ▸ shifted_injective.ne ha
      rw [h.cell_alloc_of_ne hne, g.cell_alloc_of_ne ha, ht.renames.cell]
  size := by
    have hsize := ht.size
    simp only [Heap.alloc, Array.size_push]
    omega
  ends := ht.ends.imp_right fun hu => ht.closed.untangled_alloc hu hc

end Twins

end Memory

end ExprLang
