import ExprLang.Proofs.Heap.Inside

/-! The items of sets and the keys of maps. Whatever is written there was compared with what is there
already. -/

namespace ExprLang

/-- A set or a map. -/
def CellKind.isKeyed : CellKind → Bool
  | .set | .map => true
  | _ => false

/-- The items of a set, the keys of a map. -/
def Cell.members : CellKind → Cell → List Value
  | .set, .items vs => vs
  | .map, .entries es => es.map (·.1)
  | _, _ => []

theorem Cell.Grounded.members {k : Kinds} {s : CellKind} {c : Cell} (h : c.Grounded k s) :
    ∀ v ∈ Cell.members s c, v.Grounded k := by
  cases h with
  | set h => exact h
  | map h => exact List.forall_mem_map.mpr fun e he => (h e he).1
  | _ => exact nofun

namespace Heap

variable {h : Heap} {xs ys : List Value}

/-- The list grows by values that equal none of those before. -/
inductive Grown (h : Heap) (xs : List Value) : List Value → Prop
  | start : Grown h xs xs
  | add {ys : List Value} {v : Value} (hys : Grown h xs ys) (absent : h.holds ys v = false) :
      Grown h xs (ys ++ [v])

theorem Grown.pairwise {p : Value → Value → Prop} (hys : h.Grown xs ys) (hxs : xs.Pairwise p)
    (hp : ∀ x ∈ ys, ∀ y ∈ ys, h.equal x y = false → p x y) : ys.Pairwise p := by
  induction hys with
  | start => exact hxs
  | @add ys v _ absent ih =>
    have hold : ∀ x ∈ ys, x ∈ ys ++ [v] := fun x hx => List.mem_append_left _ hx
    have hv : v ∈ ys ++ [v] := List.mem_append_right _ List.mem_cons_self
    have hpairs := ih fun x hx y hy => hp x (hold x hx) y (hold y hy)
    refine List.pairwise_append.mpr ⟨hpairs, List.pairwise_singleton _ _, fun x hx y hy => ?_⟩
    rw [List.mem_singleton.mp hy]
    refine hp x (hold x hx) v hv ?_
    simpa using List.any_eq_false.mp absent x hx

theorem Grown.trans {zs : List Value} (hxy : h.Grown xs ys) (hyz : h.Grown ys zs) :
    h.Grown xs zs := by
  induction hyz with
  | start => exact hxy
  | add _ absent ih => exact .add ih absent

theorem distinct_grown (vs : List Value) : h.Grown [] (h.distinct vs) := by
  suffices hfold : ∀ kept : List Value,
      h.Grown kept (vs.foldl (fun kept v => if h.holds kept v then kept else kept ++ [v]) kept) from
    hfold []
  induction vs with
  | nil => exact fun kept => .start
  | cons v vs ih =>
    intro kept
    refine Grown.trans ?_ (ih _)
    dsimp only
    split
    · exact .start
    · next habsent => exact .add .start (Bool.not_eq_true _ ▸ habsent)

/-- The keys stay in order, and a new one stands behind them. -/
theorem keys_putEntry (es : List (Value × Value)) (k v : Value) :
    (h.putEntry es k v).map (·.1) =
      if h.holds (es.map (·.1)) k then es.map (·.1) else es.map (·.1) ++ [k] := by
  induction es with
  | nil => rfl
  | cons e es ih =>
    cases he : h.equal e.1 k with
    | true => simp [putEntry, holds, he]
    | false =>
      have hrest : h.holds ((e :: es).map (·.1)) k = h.holds (es.map (·.1)) k := by
        simp [holds, he]
      rw [hrest, putEntry, he, if_neg Bool.false_ne_true, List.map_cons, ih]
      split <;> rfl

theorem putEntry_grown (es : List (Value × Value)) (k v : Value) :
    h.Grown (es.map (·.1)) ((h.putEntry es k v).map (·.1)) := by
  rw [keys_putEntry]
  split
  · exact .start
  · next habsent => exact .add .start (Bool.not_eq_true _ ▸ habsent)

theorem putEntries_grown (es : List (Value × Value)) :
    h.Grown [] ((es.foldl (fun kept e => h.putEntry kept e.1 e.2) []).map (·.1)) := by
  suffices hfold : ∀ kept : List (Value × Value), h.Grown (kept.map (·.1))
      ((es.foldl (fun kept e => h.putEntry kept e.1 e.2) kept).map (·.1)) from hfold []
  induction es with
  | nil => exact fun kept => .start
  | cons e es ih => exact fun kept => (putEntry_grown kept e.1 e.2).trans (ih _)

end Heap

namespace Memory

variable {m m' : Memory} {a : Address}

/-- The items of a set, the keys of a map, and nothing of other cells. -/
def members (m : Memory) (a : Address) : List Value :=
  match m.kinds[a]?, m.heap.cells[a]? with
  | some s, some c => Cell.members s c
  | _, _ => []

theorem members_eq {s : CellKind} {c : Cell} (hs : m.kinds[a]? = some s)
    (hc : m.heap.cells[a]? = some c) : m.members a = Cell.members s c := by
  rw [members, hs, hc]

theorem members_eq_items (ha : m.kinds[a]? = some .set) : m.members a = m.heap.items a := by
  obtain ⟨c, hc, hground⟩ := m.grounded.cell ha
  cases hground
  rw [members_eq ha hc, Heap.items, hc]
  rfl

theorem members_eq_keys (ha : m.kinds[a]? = some .map) :
    m.members a = (m.heap.entries a).map (·.1) := by
  obtain ⟨c, hc, hground⟩ := m.grounded.cell ha
  cases hground
  rw [members_eq ha hc, Heap.entries, hc]
  rfl

theorem members_eq_nil (ha : ∀ s, m.kinds[a]? = some s → s.isKeyed = false) : m.members a = [] := by
  unfold members
  split
  · next s c hs hc =>
    have hkeyed := ha s hs
    cases s with
    | set | map => cases hkeyed
    | _ => rfl
  · rfl

theorem members_of_kept (hk : m'.kinds[a]? = m.kinds[a]?)
    (hcell : m'.heap.cells[a]? = m.heap.cells[a]?) : m'.members a = m.members a := by
  rw [members, members, hk, hcell]

theorem members_known (m : Memory) (a : Address) : ∀ v ∈ m.members a, v.Grounded m.kinds := by
  unfold members
  split
  · next s c hs hc =>
    obtain ⟨c', hc', hground⟩ := m.grounded.cell hs
    obtain rfl := Option.some.inj (hc.symm.trans hc')
    exact hground.members
  · exact nofun

theorem New.grown {s : CellKind} {c : Cell} (hc : m.New s c) :
    m.heap.Grown [] (Cell.members s c) := by
  cases hc with
  | list | array => exact .start
  | set vs => exact Heap.distinct_grown vs
  | map es => exact Heap.putEntries_grown es

theorem Rewritten.grown {s : CellKind} {c : Cell} (ha : m.kinds[a]? = some s)
    (hc : m.Rewritten a s c) : m.heap.Grown (m.members a) (Cell.members s c) := by
  cases hc with
  | items | element =>
    obtain ⟨c, hcell, hground⟩ := m.grounded.cell ha
    cases hground
    rw [members_eq ha hcell]
    exact .start
  | member v absent =>
    rw [members_eq_items ha]
    exact .add .start absent
  | entry key v =>
    rw [members_eq_keys ha]
    exact Heap.putEntry_grown _ key v

/-- What a write adds to a set or a map is known before, and equals nothing that is there. -/
theorem Change.members_grown (h : m.Change CellKind.isKeyed m') (a : Address) :
    (∀ v ∈ m'.members a, v.Grounded m.kinds) ∧
      (m.heap.Grown [] (m'.members a) ∨ m.heap.Grown (m.members a) (m'.members a)) := by
  cases h.touched a with
  | kept hs hcell =>
    rw [members_of_kept hs hcell]
    exact ⟨m.members_known a, .inr .start⟩
  | new hc known hs hcell =>
    rw [members_eq hs hcell]
    exact ⟨known.members, .inl hc.grown⟩
  | rewritten ha hc known hs hcell =>
    rw [members_eq hs hcell]
    exact ⟨known.members, .inr (hc.grown ha)⟩
  | foreign hs hfree =>
    have hnil : m'.members a = [] := members_eq_nil fun s hs' => by
      cases hs.symm.trans hs'
      exact hfree
    rw [hnil]
    exact ⟨fun _ hv => absurd hv List.not_mem_nil, .inl .start⟩

end Memory

end ExprLang
