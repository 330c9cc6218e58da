import ExprLang.Proofs.Heap.Equality
import Mathlib.Data.Finset.Card

/-! What lies inside a value. As long as nothing contains itself, values nest no deeper than there are
cells, so the depth to which they are compared does not matter. -/

namespace ExprLang

theorem Kinds.Has.eq_of_cell {k : Kinds} {u v : Value} {a : Address} (hu : k.Has u) (hv : k.Has v)
    (hua : u.cell? = some a) (hva : v.cell? = some a) : u = v := by
  cases u <;> cases hua <;> cases v <;> cases hva <;> simp_all [Kinds.Has]

theorem Kinds.Has.lt_of_cell {k : Kinds} {v : Value} {a : Address} (hv : k.Has v)
    (hva : v.cell? = some a) : a < k.length := by
  cases v with
  | list | set | map =>
    cases hva
    exact (List.getElem?_eq_some_iff.mp hv).1
  | array =>
    cases hva
    obtain ⟨c, hc⟩ := hv
    exact (List.getElem?_eq_some_iff.mp hc).1
  | _ => cases hva

namespace Heap

variable {g h : Heap} {v w : Value} {k : Kinds}

/-- The second value is the first one or lies in it, at any depth. -/
abbrev Inside (h : Heap) : Value → Value → Prop := Relation.ReflTransGen fun v w => w ∈ h.contents v

/-- Nothing inside of the value contains itself. -/
def Acyclic (h : Heap) (v : Value) : Prop :=
  ∀ w, h.Inside v w → ¬Relation.TransGen (fun v w => w ∈ h.contents v) w w

/-- All cells inside of the value are the same. -/
def SameInside (g h : Heap) (v : Value) : Prop := ∀ w, h.Inside v w → g.SameCell h w

theorem contents_of_sameCell (hv : g.SameCell h v) : g.contents v = h.contents v := by
  cases v with
  | list a | set a => exact items_of_cell (hv a rfl)
  | map a => rw [contents, contents, entries_of_cell (hv a rfl)]
  | array a => rw [contents, contents, array_of_cell (hv a rfl)]
  | _ => rfl

theorem Acyclic.inside (ha : h.Acyclic v) (hw : h.Inside v w) : h.Acyclic w :=
  fun u hu => ha u (hw.trans hu)

theorem SameInside.inside (hs : g.SameInside h v) (hw : h.Inside v w) : g.SameInside h w :=
  fun u hu => hs u (hw.trans hu)

theorem SameInside.contents (hs : g.SameInside h v) : ∀ w ∈ h.contents v, g.SameInside h w :=
  fun _ hw => hs.inside (.single hw)

theorem inside_of_sameInside (hs : g.SameInside h v) (hw : g.Inside v w) : h.Inside v w := by
  induction hw with
  | refl => exact .refl
  | tail _ hw ih => exact ih.tail (contents_of_sameCell (hs _ ih) ▸ hw)

theorem transGen_of_sameInside (hs : g.SameInside h v)
    (hw : Relation.TransGen (fun v w => w ∈ g.contents v) v w) :
    Relation.TransGen (fun v w => w ∈ h.contents v) v w := by
  obtain ⟨u, hu, huw⟩ := Relation.TransGen.head'_iff.mp hw
  rw [contents_of_sameCell (hs v .refl)] at hu
  exact .head' hu (inside_of_sameInside (hs.contents u hu) huw)

theorem Acyclic.of_sameInside (hs : g.SameInside h v) (ha : h.Acyclic v) : g.Acyclic v := by
  intro w hw hcycle
  have hin := inside_of_sameInside hs hw
  exact ha w hin (transGen_of_sameInside (hs.inside hin) hcycle)

theorem exists_cell_of_contents (hw : w ∈ h.contents v) : ∃ a, v.cell? = some a := by
  cases v with
  | list a | set a | map a | array a => exact ⟨a, rfl⟩
  | _ => cases hw

/-- Nothing lies in a value without a cell. -/
theorem eq_of_inside_leaf (hv : v.cell? = none) (hw : h.Inside v w) : w = v := by
  rcases hw.cases_head with heq | ⟨u, hu, -⟩
  · exact heq.symm
  · obtain ⟨a, ha⟩ := exists_cell_of_contents hu
    cases hv.symm.trans ha

/-- The value holds no other collections. -/
def Flat (h : Heap) (v : Value) : Prop := ∀ w ∈ h.contents v, w.cell? = none

namespace Flat

variable (hv : h.Flat v)
include hv

theorem eq_of_cell {a : Address} (hw : h.Inside v w) (ha : w.cell? = some a) : w = v := by
  rcases hw.cases_head with heq | ⟨u, hu, huw⟩
  · exact heq.symm
  · rw [eq_of_inside_leaf (hv u hu) huw, hv u hu] at ha
    cases ha

theorem acyclic : h.Acyclic v := by
  intro w hw hcycle
  obtain ⟨u, hu, huw⟩ := Relation.TransGen.head'_iff.mp hcycle
  obtain ⟨a, ha⟩ := exists_cell_of_contents hu
  rw [hv.eq_of_cell hw ha] at hu huw ha
  rw [eq_of_inside_leaf (hv u hu) huw, hv u hu] at ha
  cases ha

theorem sameInside (hcell : g.SameCell h v) : g.SameInside h v := by
  intro w hw a ha
  rw [hv.eq_of_cell hw ha] at ha
  exact hcell a ha

end Flat

namespace Grounded

variable (hh : h.Grounded k)
include hh

theorem contents (v : Value) : ∀ w ∈ h.contents v, w.Grounded k := by
  cases v with
  | list a | set a => exact hh.items a
  | array a => exact hh.array_items a
  | map a =>
    intro w hw
    obtain ⟨e, he, hw⟩ := List.mem_flatMap.mp hw
    have hground := hh.entries a e he
    rcases List.mem_pair.mp hw with rfl | rfl
    · exact hground.1
    · exact hground.2
  | _ => exact nofun

theorem inside (hv : v.Grounded k) (hw : h.Inside v w) : w.Grounded k := by
  cases hw.cases_tail with
  | inl heq => rwa [heq]
  | inr hlast =>
    obtain ⟨u, -, hwu⟩ := hlast
    exact hh.contents u w hwu

end Grounded

/-- A new cell changes nothing inside of the values before. -/
theorem sameInside_alloc {c : Cell} (hh : h.Grounded k) (hv : v.Grounded k) :
    (h.alloc c).2.SameInside h v := by
  intro w hw a ha
  refine h.cell_alloc_of_ne (Nat.ne_of_lt ?_)
  rw [← hh.length]
  exact (hh.inside hv hw).has.lt_of_cell ha

/-- What is equal was so before, where the cells inside are the same. -/
theorem equalAt_of_sameInside {n : Nat} (hv : g.SameInside h v) (hw : g.SameInside h w)
    (heq : g.equalAt n v w = true) : h.equalAt n v w = true := by
  induction n generalizing v w with
  | zero => cases heq
  | succ n ih =>
    rw [equalAt_succ_iff] at heq ⊢
    have hcellv : g.SameCell h v := hv v .refl
    have hcellw : g.SameCell h w := hw w .refl
    refine heq.imp (fun a ha => (hcellv a ha).symm) (fun a ha => (hcellw a ha).symm) ?_
    rw [contents_of_sameCell hcellv, contents_of_sameCell hcellw]
    rintro x y (⟨hx, hy⟩ | ⟨hx, hy⟩) hxy
    · exact ih (hv.contents x hx) (hw.contents y hy) hxy
    · exact ih (hw.contents x hx) (hv.contents y hy) hxy

/-! ## Depth -/

/-- The value nests less deep than `n`. -/
def Nests (h : Heap) : Nat → Value → Prop
  | 0, _ => False
  | n + 1, v => ∀ w ∈ h.contents v, h.Nests n w

theorem equalAt_of_nests {m n : Nat} (hv : h.Nests n v) :
    (h.equalAt m v w = true → h.equalAt n v w = true) ∧
      (h.equalAt m w v = true → h.equalAt n w v = true) := by
  induction n generalizing m v w with
  | zero => cases hv
  | succ n ih =>
    cases m with
    | zero => exact ⟨nofun, nofun⟩
    | succ m =>
      simp only [equalAt_succ_iff]
      constructor <;> intro heq <;> refine heq.imp (fun _ _ => rfl) (fun _ _ => rfl) ?_ <;>
        rintro x y (⟨hx, hy⟩ | ⟨hx, hy⟩)
      · exact (ih (hv x hx)).1
      · exact (ih (hv y hy)).2
      · exact (ih (hv y hy)).2
      · exact (ih (hv x hx)).1

/-- Every level takes a cell of its own. -/
theorem Acyclic.nests_of_cells {n : Nat} {cells : Finset Address} (hh : h.Grounded k)
    (hv : v.Grounded k) (ha : h.Acyclic v) (hcard : cells.card ≤ n)
    (hcells : ∀ w, h.Inside v w → ∀ a, w.cell? = some a → a ∈ cells) : h.Nests (n + 1) v := by
  induction n generalizing cells v with
  | zero =>
    intro w hw
    obtain ⟨a, hva⟩ := exists_cell_of_contents hw
    have hmem := hcells v .refl a hva
    rw [Finset.card_eq_zero.mp (Nat.le_zero.mp hcard)] at hmem
    cases hmem
  | succ n ih =>
    intro w hw
    obtain ⟨a, hva⟩ := exists_cell_of_contents hw
    have hmem := hcells v .refl a hva
    have hcard' : (cells.erase a).card ≤ n := by
      rw [Finset.card_erase_of_mem hmem]
      omega
    refine ih (hh.contents v w hw) (fun u hu => ha u (.head hw hu)) hcard' fun u hu b hub => ?_
    refine Finset.mem_erase.mpr ⟨?_, hcells u (.head hw hu) b hub⟩
    rintro rfl
    -- Below the value, its cell would be that of a value which contains itself.
    have huv : u = v := (hh.inside hv (.head hw hu)).has.eq_of_cell hv.has hub hva
    rw [huv] at hu
    exact ha v .refl (.head' hw hu)

theorem Acyclic.nests (hh : h.Grounded k) (hv : v.Grounded k) (ha : h.Acyclic v) :
    h.Nests (h.cells.size + 1) v := by
  refine ha.nests_of_cells hh hv (Finset.card_range _).le fun w hw a hwa => ?_
  rw [Finset.mem_range, ← hh.length]
  exact (hh.inside hv hw).has.lt_of_cell hwa

/-- Comparisons to any depth find no more equal than strict equality does. -/
theorem Acyclic.equal_of_equalAt {n : Nat} (hh : h.Grounded k) (hv : v.Grounded k)
    (ha : h.Acyclic v) (heq : h.equalAt n v w = true) : h.equal v w = true :=
  (equalAt_of_nests (ha.nests hh hv)).1 heq

end Heap

end ExprLang
