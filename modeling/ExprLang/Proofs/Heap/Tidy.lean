import ExprLang.Proofs.Heap.Members

/-! Strict equality as an equivalence. Two sets or maps of one size are compared in one direction only.
As long as neither holds two equal members, the other direction says the same. -/

namespace ExprLang

namespace Heap

variable {g h : Heap} {k : Kinds} {v w : Value} {a b : Address} {n : Nat}

/-- The items of a set, the keys of a map, and nothing of other values. -/
def keys (h : Heap) : Value → List Value
  | .set a => h.items a
  | .map a => (h.entries a).map (·.1)
  | _ => []

/-- Inside of the value, no item of a set and no key of a map equals a later one. -/
def Tidy (h : Heap) (v : Value) : Prop :=
  ∀ w, h.Inside v w → (h.keys w).Pairwise fun x y => h.equal x y = false

theorem contents_of_keys : ∀ x ∈ h.keys v, x ∈ h.contents v := by
  cases v with
  | set a => exact fun x hx => hx
  | map a =>
    intro x hx
    obtain ⟨e, he, rfl⟩ := List.mem_map.mp hx
    exact (mem_contents_map he).1
  | _ => exact nofun

theorem keys_of_sameCell (hv : g.SameCell h v) : g.keys v = h.keys v := by
  cases v with
  | set a => exact items_of_cell (hv a rfl)
  | map a => rw [keys, keys, entries_of_cell (hv a rfl)]
  | _ => rfl

/-! ## Symmetry -/

theorem Tidy.contents (hv : h.Tidy v) : ∀ w ∈ h.contents v, h.Tidy w :=
  fun _ hw u hu => hv u (.head hw hu)

theorem Tidy.entry {e : Value × Value} (hv : h.Tidy (.map a)) (he : e ∈ h.entries a) :
    h.Tidy e.1 ∧ h.Tidy e.2 :=
  ⟨hv.contents _ (mem_contents_map he).1, hv.contents _ (mem_contents_map he).2⟩

/-- Two members with the same partner would be equal themselves. -/
theorem Tidy.apart (hv : h.Tidy v) (hn : n ≤ h.cells.size + 1)
    (symm : ∀ x y, h.Tidy x → h.Tidy y → h.equalAt n x y = true → h.equalAt n y x = true) :
    (h.keys v).Pairwise fun x x' => ∀ y, h.Tidy y → h.equalAt n y x = true →
      ¬h.equalAt n y x' = true := by
  refine (hv v .refl).imp_of_mem fun {x x'} hx _ hne y hy hyx hyx' => ?_
  have hxy := symm y x hy (hv.contents x (contents_of_keys x hx)) hyx
  have heq : h.equal x x' = true := equalAt_mono hn (equalAt_trans hxy hyx')
  rw [heq] at hne
  cases hne

theorem Tidy.equalAt_symm (hv : h.Tidy v) (hw : h.Tidy w) (hn : n ≤ h.cells.size + 1)
    (heq : h.equalAt n v w = true) : h.equalAt n w v = true := by
  induction n generalizing v w with
  | zero => cases heq
  | succ n ih =>
    have hle : n ≤ h.cells.size + 1 := Nat.le_of_succ_le hn
    have hapart := hv.apart hle fun x y hx hy => ih hx hy hle
    rw [equalAt_succ_iff] at heq ⊢
    refine heq.symm ?_ ?_ ?_
    · rintro x y (⟨hx, hy⟩ | ⟨hx, hy⟩)
      · exact ih (hv.contents x hx) (hw.contents y hy) hle
      · exact ih (hw.contents x hx) (hv.contents y hy) hle
    · rintro a b rfl rfl
      exact hapart.imp fun hxx' y hy => hxx' y (hw.contents y hy)
    · rintro a b rfl rfl
      refine (List.pairwise_map.mp hapart).imp ?_
      intro e e' hee' f hf
      exact hee' f.1 (hw.entry hf).1

/-- The test that sets and maps of one size are put to: what the first holds is found in the second. -/
def FoundIn (h : Heap) (n : Nat) : Value → Value → Prop
  | .set a, .set b => ∀ x ∈ h.items a, ∃ y ∈ h.items b, h.equalAt n y x = true
  | .map a, .map b => ∀ e ∈ h.entries a, ∃ f ∈ h.entries b,
      h.equalAt n f.1 e.1 = true ∧ h.equalAt n f.2 e.2 = true
  | _, _ => False

theorem Tidy.foundIn_symm (hv : h.Tidy v) (hw : h.Tidy w) (hn : n ≤ h.cells.size + 1)
    (hsize : (h.keys v).length = (h.keys w).length) (hfound : h.FoundIn n v w) :
    h.FoundIn n w v := by
  have symm : ∀ x y, h.Tidy x → h.Tidy y → h.equalAt n x y = true → h.equalAt n y x = true :=
    fun x y hx hy => hx.equalAt_symm hy hn
  have hapart := hv.apart hn symm
  cases v with
  | set a =>
    cases w with
    | set b =>
      refine (Covers.symm (r := fun y x => h.equalAt n y x = true) ?_ ?_ ⟨hsize, hfound⟩).2
      · exact fun x hx y hy => symm y x (hw.contents y hy) (hv.contents x hx)
      · exact hapart.imp fun hxx' y hy => hxx' y (hw.contents y hy)
    | _ => exact hfound.elim
  | map a =>
    cases w with
    | map b =>
      rw [keys, keys, List.length_map, List.length_map] at hsize
      refine (Covers.symm (r := fun (f e : Value × Value) =>
        h.equalAt n f.1 e.1 = true ∧ h.equalAt n f.2 e.2 = true) (fun e he f hf hfe => ?_) ?_ ⟨hsize, hfound⟩).2
      · exact ⟨symm _ _ (hw.entry hf).1 (hv.entry he).1 hfe.1,
          symm _ _ (hw.entry hf).2 (hv.entry he).2 hfe.2⟩
      · refine (List.pairwise_map.mp hapart).imp ?_
        intro e e' hee' f hf hfe hfe'
        exact hee' f.1 (hw.entry hf).1 hfe.1 hfe'.1
    | _ => exact hfound.elim
  | _ => exact hfound.elim

/-! ## Building tidy values -/

theorem keys_of_leaf (hv : v.cell? = none) : h.keys v = [] := by
  cases v with
  | set | map => cases hv
  | _ => rfl

theorem Flat.tidy (hv : h.Flat v) (hkeys : h.keys v = []) : h.Tidy v := by
  intro w hw
  cases hcell : w.cell? with
  | none => exact keys_of_leaf hcell ▸ .nil
  | some a => exact hv.eq_of_cell hw hcell ▸ hkeys ▸ .nil

/-- The value refers to known cells, nothing inside contains itself, and it is tidy. -/
structure Regular (h : Heap) (k : Kinds) (v : Value) : Prop where
  known : v.Grounded k
  acyclic : h.Acyclic v
  tidy : h.Tidy v

/-- Comparisons of the items of a value find no more equal than before, while no cell inside changes. -/
theorem Regular.tidy_of_sameInside (hh : h.Grounded k) (hv : h.Regular k v)
    (hs : g.SameInside h v) : g.Tidy v := by
  intro w hw
  have hin := inside_of_sameInside hs hw
  rw [keys_of_sameCell (hs w hin)]
  refine (hv.tidy w hin).imp_of_mem fun {x y} hx hy hne => ?_
  have hinx : h.Inside v x := hin.tail (contents_of_keys x hx)
  have hiny : h.Inside v y := hin.tail (contents_of_keys y hy)
  rw [Bool.eq_false_iff] at hne ⊢
  exact fun heq => hne <| (hv.acyclic.inside hinx).equal_of_equalAt hh (hh.inside hv.known hinx) <|
    equalAt_of_sameInside (hs.inside hinx) (hs.inside hiny) heq

section Alloc

variable {c : Cell} {s : CellKind} (hh : h.Grounded k)
include hh

theorem Regular.alloc (hv : h.Regular k v) : (h.alloc c).2.Regular (k ++ [s]) v where
  known := hv.known.mono (List.prefix_append k [s])
  acyclic := hv.acyclic.of_sameInside (sameInside_alloc hh hv.known)
  tidy := hv.tidy_of_sameInside hh (sameInside_alloc hh hv.known)

/-- A new collection of regular values is regular if its members were found to differ. -/
theorem regular_of_alloc (hv : v.Grounded (k ++ [s])) (hcell : v.cell? = some h.cells.size)
    (hold : ∀ w ∈ (h.alloc c).2.contents v, h.Regular k w)
    (hkeys : h.Grown [] ((h.alloc c).2.keys v)) : (h.alloc c).2.Regular (k ++ [s]) v where
  known := hv
  acyclic := by
    intro w hw hcycle
    rcases hw.cases_head with rfl | ⟨u, hu, huw⟩
    · obtain ⟨u, hu, huv⟩ := Relation.TransGen.head'_iff.mp hcycle
      -- The new cell was not there when its contents were.
      have hknown := (hold u hu).known
      have hlt := (hh.inside hknown (inside_of_sameInside (sameInside_alloc hh hknown) huv)).has.lt_of_cell hcell
      rw [hh.length] at hlt
      exact Nat.lt_irrefl _ hlt
    · exact ((hold u hu).alloc (s := s) hh).acyclic w huw hcycle
  tidy := by
    intro w hw
    rcases hw.cases_head with rfl | ⟨u, hu, huw⟩
    · refine hkeys.pairwise .nil fun x hx y hy hne => ?_
      have hregx := hold x (contents_of_keys x hx)
      have hregy := hold y (contents_of_keys y hy)
      rw [Bool.eq_false_iff] at hne ⊢
      exact fun heq => hne <| hregx.acyclic.equal_of_equalAt hh hregx.known <|
        equalAt_of_sameInside (sameInside_alloc hh hregx.known) (sameInside_alloc hh hregy.known) heq
    · exact ((hold u hu).alloc (s := s) hh).tidy w huw

/-- Sets are built regular. -/
theorem newSet_regular {vs : List Value} (hvs : ∀ v ∈ vs, h.Regular k v) :
    (h.newSet vs).2.Regular (k ++ [.set]) (h.newSet vs).1 := by
  have hitems : (h.alloc (.items (h.distinct vs))).2.items h.cells.size = h.distinct vs := by
    rw [items, h.cell_alloc]
  have hset : (Value.set h.cells.size).Grounded (k ++ [.set]) :=
    Value.grounded_set (hh.length ▸ List.getElem?_concat_length)
  refine regular_of_alloc (v := .set h.cells.size) (c := .items (h.distinct vs)) hh hset rfl (fun w hw => ?_) ?_
  · rw [contents, hitems] at hw
    exact hvs w (h.mem_of_mem_distinct hw)
  · rw [keys, hitems]
    exact distinct_grown vs

/-- Maps are built regular. -/
theorem newMap_regular {es : List (Value × Value)}
    (hes : ∀ e ∈ es, h.Regular k e.1 ∧ h.Regular k e.2) :
    (h.newMap es).2.Regular (k ++ [.map]) (h.newMap es).1 := by
  let kept := es.foldl (fun kept e => h.putEntry kept e.1 e.2) []
  have hentries : (h.alloc (.entries kept)).2.entries h.cells.size = kept := by
    rw [entries, h.cell_alloc]
  have hmap : (Value.map h.cells.size).Grounded (k ++ [.map]) :=
    Value.grounded_map (hh.length ▸ List.getElem?_concat_length)
  refine regular_of_alloc (v := .map h.cells.size) (c := .entries kept) hh hmap rfl (fun w hw => ?_) ?_
  · rw [contents, hentries] at hw
    obtain ⟨e, he, hw⟩ := List.mem_flatMap.mp hw
    obtain ⟨hkey, hvalue⟩ := h.forall_mem_putEntries hes e he
    rcases List.mem_pair.mp hw with rfl | rfl
    · exact hkey
    · exact hvalue
  · rw [keys, hentries]
    exact putEntries_grown es

end Alloc

/-! ## Strict equality as an equivalence -/

/-- Strict equality is reflexive except at NaN, symmetric and transitive on tidy values of any nesting.
The one-sided test for sets and maps of one size says the same from both sides. -/
theorem equal_equivalence (hv : h.Tidy v) (hw : h.Tidy w) :
    (Comparison.isNaN v = false → h.equal v v = true) ∧ h.equal v w = h.equal w v ∧
      (∀ u, h.equal u v = true → h.equal v w = true → h.equal u w = true) ∧
      ∀ n ≤ h.cells.size + 1, (h.keys v).length = (h.keys w).length →
        (h.FoundIn n v w ↔ h.FoundIn n w v) := by
  refine ⟨equal_self, ?_, fun u => equalAt_trans, fun n hn hsize => ?_⟩
  · exact Bool.eq_iff_iff.mpr ⟨hv.equalAt_symm hw le_rfl, hw.equalAt_symm hv le_rfl⟩
  · exact ⟨hv.foundIn_symm hw hn hsize, hw.foundIn_symm hv hn hsize.symm⟩

/-- The lists `[1]`, `[2]` and once more `[1]`. -/
def threeLists : Heap := ⟨⟨#[]⟩, #[.items [.long 1], .items [.long 2], .items [.long 1]]⟩

theorem threeLists_grounded : threeLists.Grounded [.list, .list, .list] :=
  have hlong (n : Int64) : Cell.Grounded [.list, .list, .list] .list (.items [.long n]) :=
    .list (List.forall_mem_singleton.mpr (Value.grounded_of_isAtom rfl))
  .cons (hlong 1) (.cons (hlong 2) (.cons (hlong 1) .nil))

theorem threeLists_flat (ha : a < 3) : threeLists.Flat (.list a) := by
  match a with
  | 0 | 1 | 2 => exact List.forall_mem_singleton.mpr rfl

theorem threeLists_regular (ha : a < 3) :
    threeLists.Regular [.list, .list, .list] (.list a) where
  known := Value.grounded_list (by match a with | 0 | 1 | 2 => rfl)
  acyclic := (threeLists_flat ha).acyclic
  tidy := (threeLists_flat ha).tidy rfl

/-- A map of the lists. -/
def oneMap : Heap := (threeLists.newMap [(.list 0, .list 1), (.list 1, .list 0)]).2

/-- A second map with equal entries in another order; one of its keys is a list of its own. -/
def twoMaps : Heap := (oneMap.newMap [(.list 1, .list 2), (.list 2, .list 1)]).2

theorem oneMap_grounded : oneMap.Grounded [.list, .list, .list, .map] := by
  refine (threeLists_grounded.alloc (s := .map) (.map ?_)).1
  exact List.forall_mem_cons.mpr ⟨⟨Value.grounded_list rfl, Value.grounded_list rfl⟩,
    List.forall_mem_singleton.mpr ⟨Value.grounded_list rfl, Value.grounded_list rfl⟩⟩

theorem maps_equal_both_ways :
    twoMaps.Tidy (.map 3) ∧ twoMaps.Tidy (.map 4) ∧ twoMaps.equal (.map 3) (.map 4) = true ∧
      twoMaps.equal (.map 4) (.map 3) = true ∧ twoMaps.FoundIn 5 (.map 4) (.map 3) := by
  have hfirst : oneMap.Regular [.list, .list, .list, .map] (.map 3) := by
    refine newMap_regular threeLists_grounded ?_
    exact List.forall_mem_cons.mpr ⟨⟨threeLists_regular (by decide), threeLists_regular (by decide)⟩,
      List.forall_mem_singleton.mpr ⟨threeLists_regular (by decide), threeLists_regular (by decide)⟩⟩
  have hlist {a : Address} (ha : a < 3) : oneMap.Regular [.list, .list, .list, .map] (.list a) :=
    (threeLists_regular ha).alloc threeLists_grounded
  have hsecond : twoMaps.Regular [.list, .list, .list, .map, .map] (.map 4) := by
    refine newMap_regular oneMap_grounded ?_
    exact List.forall_mem_cons.mpr ⟨⟨hlist (by decide), hlist (by decide)⟩,
      List.forall_mem_singleton.mpr ⟨hlist (by decide), hlist (by decide)⟩⟩
  have hfirst' : twoMaps.Tidy (.map 3) := (hfirst.alloc (s := .map) oneMap_grounded).tidy
  have heq : twoMaps.equal (.map 3) (.map 4) = true := rfl
  have hfound : twoMaps.FoundIn 5 (.map 3) (.map 4) := by
    refine List.forall_mem_cons.mpr ⟨⟨(.list 2, .list 1), .tail _ (.head _), rfl, rfl⟩, ?_⟩
    exact List.forall_mem_singleton.mpr ⟨(.list 1, .list 2), .head _, rfl, rfl⟩
  obtain ⟨-, hsymm, -, htest⟩ := equal_equivalence hfirst' hsecond.tidy
  exact ⟨hfirst', hsecond.tidy, heq, hsymm ▸ heq, (htest 5 (by decide) rfl).mp hfound⟩

end Heap

end ExprLang

/-! ## Members that are equal

When two items of a set or two keys of a map are equal: both are collections or arrays, and one of
them was changed where it was. -/

namespace ExprLang

namespace Heap

variable {g h : Heap} {v w : Value}

/-- One of the values equals the other. -/
def Clash (h : Heap) (v w : Value) : Prop := h.equal v w = true ∨ h.equal w v = true

theorem isSome_cell_of_equalAt {n : Nat} (heq : h.equalAt n v w = true) :
    v.cell?.isSome = w.cell?.isSome := by
  cases n with
  | zero => cases heq
  | succ n =>
    cases equalAt_succ_iff.mp heq with
    | leaf hv hw => rw [hv, hw]
    | _ => rfl

theorem Clash.isSome_cell (hc : h.Clash v w) : v.cell?.isSome = w.cell?.isSome :=
  hc.elim isSome_cell_of_equalAt fun heq => (isSome_cell_of_equalAt heq).symm

/-- Values that are no collections clash in any heap. -/
theorem Clash.of_leaf (hv : v.cell? = none) (hc : g.Clash v w) : h.Clash v w := by
  rcases hc with heq | heq
  · exact .inl ((equalAt_leaf hv h _ _ w).trans heq)
  · have hw : w.cell? = none := by
      rw [← Option.not_isSome_iff_eq_none, isSome_cell_of_equalAt heq, hv]
      exact Bool.false_ne_true
    exact .inr ((equalAt_leaf hw h _ _ v).trans heq)

end Heap

namespace Memory

variable {m m' : Memory}

/-- No two items of a set and no two keys of a map are equal. -/
def Distinct (m : Memory) : Prop := ∀ a, (m.members a).Pairwise fun v w => ¬m.heap.Clash v w

/-- Two items of a set or two keys of a map that are equal are collections or arrays. -/
def Apart (m : Memory) : Prop :=
  ∀ a, (m.members a).Pairwise fun v w =>
    m.heap.Clash v w → v.cell?.isSome = true ∧ w.cell?.isSome = true

/-- No cell inside of an item of a set or of a key of a map changes, and none of these contains
itself. -/
def Quiet (m m' : Memory) : Prop :=
  ∀ a, ∀ v ∈ m'.members a, m.heap.Acyclic v ∧ m'.heap.SameInside m.heap v

/-- Writes that change no member, one after the other. -/
abbrev QuietlyReaches : Memory → Memory → Prop :=
  Relation.ReflTransGen fun m m' => m.Change CellKind.isKeyed m' ∧ m.Quiet m'

theorem Distinct.apart (hm : m.Distinct) : m.Apart := fun a => (hm a).imp fun h hc => absurd hc h

/-- What holds of the members and of all values that are found to differ holds of the members
after a write. -/
theorem Change.pairwise {p : Value → Value → Prop} (h : m.Change CellKind.isKeyed m')
    (hm : ∀ a, (m.members a).Pairwise p)
    (hp : ∀ v w, v.Grounded m.kinds → w.Grounded m.kinds → m.heap.equal v w = false → p v w)
    (a : Address) : (m'.members a).Pairwise p := by
  obtain ⟨known, hgrown⟩ := h.members_grown a
  have hadded : ∀ v ∈ m'.members a, ∀ w ∈ m'.members a, m.heap.equal v w = false → p v w :=
    fun v hv w hw => hp v w (known v hv) (known w hw)
  rcases hgrown with hgrown | hgrown
  · exact hgrown.pairwise .nil hadded
  · exact hgrown.pairwise (hm a) hadded

/-! ## Without regard to writes -/

theorem Change.apart (h : m.Change CellKind.isKeyed m') (hm : m.Apart) : m'.Apart := by
  have hadded : ∀ v w, v.Grounded m.kinds → w.Grounded m.kinds → m.heap.equal v w = false →
      m.heap.Clash v w → v.cell?.isSome = true ∧ w.cell?.isSome = true := by
    intro v w _ _ hne hc
    have heq : m.heap.equal w v = true := hc.resolve_left (by rw [hne]; exact Bool.false_ne_true)
    have hshared : w.cell?.isSome = true := by
      by_contra hleaf
      have hsymm := Heap.leaf_symm (Option.not_isSome_iff_eq_none.mp hleaf) heq
      rw [Heap.equal, hsymm] at hne
      cases hne
    exact ⟨hc.isSome_cell.trans hshared, hshared⟩
  intro a
  refine (h.pairwise hm hadded a).imp fun {v w} hvw hc => ?_
  cases hv : v.cell? with
  | some b => exact ⟨rfl, hc.isSome_cell ▸ congrArg Option.isSome hv⟩
  | none => exact hv ▸ hvw (hc.of_leaf hv)

theorem Reaches.apart (h : m.Reaches CellKind.isKeyed m') (hm : m.Apart) : m'.Apart := by
  induction h with
  | refl => exact hm
  | tail _ hc ih => exact hc.apart ih

/-! ## While no member changes -/

theorem members_eq_of_key {v : Value} {w : Value} (hv : v.Grounded m.kinds)
    (hw : w ∈ m.heap.keys v) : ∃ a, m.members a = m.heap.keys v := by
  cases v with
  | set a => exact ⟨a, members_eq_items hv.has⟩
  | map a => exact ⟨a, members_eq_keys hv.has⟩
  | _ => cases hw

/-- Where the members of all sets and maps are distinct, all values are tidy. -/
theorem Distinct.tidy (hm : m.Distinct) {v : Value} (hv : v.Grounded m.kinds) : m.heap.Tidy v := by
  intro w hw
  cases hkeys : m.heap.keys w with
  | nil => exact .nil
  | cons x xs =>
    obtain ⟨a, ha⟩ := members_eq_of_key (m.grounded.inside hv hw) (hkeys ▸ List.mem_cons_self)
    rw [← hkeys, ← ha]
    exact (hm a).imp fun hc => Bool.eq_false_iff.mpr fun heq => hc (.inl heq)

theorem Change.distinct (h : m.Change CellKind.isKeyed m') (hquiet : m.Quiet m')
    (hm : m.Distinct) : m'.Distinct := by
  have hadded : ∀ v w, v.Grounded m.kinds → w.Grounded m.kinds → m.heap.equal v w = false →
      ¬m.heap.Clash v w := by
    rintro v w hv hw hne (heq | heq)
    · rw [heq] at hne
      cases hne
    · rw [Heap.equal, (hm.tidy hw).equalAt_symm (hm.tidy hv) le_rfl heq] at hne
      cases hne
  intro a
  have known := (h.members_grown a).1
  -- What would be equal now was equal before the write.
  have hbefore : ∀ v ∈ m'.members a, ∀ w ∈ m'.members a, m'.heap.equal v w = true →
      m.heap.equal v w = true := fun v hv w hw heq =>
    (hquiet a v hv).1.equal_of_equalAt m.grounded (known v hv)
      (Heap.equalAt_of_sameInside (hquiet a v hv).2 (hquiet a w hw).2 heq)
  exact (h.pairwise hm hadded a).imp_of_mem fun hv hw hne hc =>
    hne (hc.imp (hbefore _ hv _ hw) (hbefore _ hw _ hv))

theorem QuietlyReaches.distinct (h : m.QuietlyReaches m') (hm : m.Distinct) : m'.Distinct := by
  induction h with
  | refl => exact hm
  | tail _ hc ih => exact hc.1.distinct hc.2 ih

end Memory

end ExprLang
