import ExprLang.Proofs.Declared
import ExprLang.Proofs.Evaluation.Prediction
import ExprLang.Proofs.Resolution.Storing

/-! What an assignment changes in the standard chain, after the parts of its target have been evaluated:
nothing where it fails, what one name or one place of a collection holds, or what the code of a writer
changes. -/

namespace ExprLang

theorem World.Twin.storage {c : Context} {w w' : World} (h : w.Twin c w') : w'.storage = w.storage := by
  rw [World.storage, World.storage, h.heap, h.context]

theorem Outcome.Paired.storage? {α : Type} {c : Context} {o o' : Outcome α}
    (h : Outcome.Paired (World.Twin c) o o') : o'.storage? = o.storage? := by
  cases h with
  | value a hu | fault e hu => exact congrArg some hu.storage
  | exhausted => rfl

namespace Evaluation

open Resolution (Refused)

variable {host : Host} {handle : Handler} {ro : Bool} {depth : Nat} {b : Bound} {n : Node} {v : Value}
  {w u u' : World} {e : Fault} {t : Denoted}

namespace Denoted

/-- The storage after a value has been stored where a target denotes: under a name in the store of the
chain, or in one place of a collection, as one of the type of the items. -/
inductive Stored (s : Storage) (v : Value) : Denoted → Storage → Prop where
  | name (name : String) :
    Stored s v (.name name)
      ⟨s.heap, s.stores.setIfInBounds 0 ((s.stores.getD 0 []).insert name v)⟩
  | item {base k y : Value} {a : Address} {c c' : Cell} : s.heap.itemFor base v = .ok y →
    s.heap.cellOf? base = some (a, c) → s.heap.Stored k y c c' →
    Stored s v (.property base k) ⟨s.heap.put a c', s.stores⟩

/-- Other cells and other names are as they were. -/
theorem Stored.elsewhere {s s' : Storage} (h : Stored s v t s') :
    s'.heap.lineage = s.heap.lineage ∧ s'.heap.cells.size = s.heap.cells.size ∧
      (∀ a, (∀ base k c, t = .property base k → s.heap.cellOf? base ≠ some (a, c)) →
        s'.heap.cells[a]? = s.heap.cells[a]?) ∧
      ∀ i name, i ≠ 0 ∨ t ≠ .name name →
        (s'.stores.getD i []).find? name = (s.stores.getD i []).find? name := by
  cases h with
  | name x =>
    refine ⟨rfl, rfl, fun _ _ => rfl, fun i name hother => ?_⟩
    simp only [Array.getD_eq_getD_getElem?, Array.getElem?_setIfInBounds]
    split
    · next hi =>
      have hx : x ≠ name := by
        rintro rfl
        exact hother.elim (· hi.symm) (· rfl)
      split
      · rw [Option.getD_some, Bindings.find?_insert, if_neg hx, hi]
      · next hsize => rw [Array.getElem?_eq_none (hi ▸ Nat.le_of_not_lt hsize)]
    · rfl
  | @item base k y a c c' hy hcell hstored =>
    refine ⟨rfl, by simp [Heap.put], fun b hb => Heap.cell_put_of_ne _ fun hab => ?_, fun _ _ _ => rfl⟩
    exact hb base k c rfl (hab ▸ hcell)

/-- The storage is what the code of the writer of a property of a host object leaves, which was called
once, with the value as one of the type of the property. Before its code started, nothing was changed. -/
def LeftByWriter (host : Host) (handle : Handler) (w : World) (v : Value) (left : Option Storage) :
    Denoted → Prop
  | property (.object a) k => ∃ y u, convertForWrite host handle (.object a) k v w = .value y u ∧
      w.Unmoved u ∧ Resolution.LeftByWriter host handle u (.object a) k y left
  | _ => False

/-- Only properties of objects of the host have writers. -/
theorem object_of_leftByWriter {classes : Array HostClass}
    {custom : Nat → {α : Type} → Request α → Action α} {base k y : Value} {left : Option Storage}
    (h : Resolution.LeftByWriter ⟨.ofHost classes, custom⟩ handle w base k y left) :
    ∃ a, base = .object a := by
  obtain ⟨p, m, _, _, _, ⟨c, name, hclass, -, hp⟩, hm, -⟩ := h
  obtain ⟨i, rfl⟩ := BeanProperties.host_of_writer hp hm
  cases base with
  | object a => exact ⟨a, rfl⟩
  | _ => cases hclass

/-- A write to what a target denotes fails and changes nothing, or stores the value there, or leaves it to
the code of a writer. -/
theorem write_cases (ht : t.Based) (hw : w.Plain ro) (classes : Array HostClass)
    (custom : Nat → {α : Type} → Request α → Action α) (handle : Handler) (v : Value) :
    Refused (t.write ⟨.ofHost classes, custom⟩ handle v) w ∨
      (∃ u, t.write ⟨.ofHost classes, custom⟩ handle v w = .value () u ∧
        Stored w.storage v t u.storage) ∨
      t.LeftByWriter ⟨.ofHost classes, custom⟩ handle w v
        (t.write ⟨.ofHost classes, custom⟩ handle v w).storage? := by
  cases t with
  | argument x => exact .inl (.fail _ w)
  | literal x => exact .inl ⟨_, w, rfl, .refl w⟩
  | callResult => exact .inl (.fail _ w)
  | other x => exact .inl (.fail _ w)
  | name x =>
    obtain ⟨u, hset, hheap, hstores⟩ :=
      Resolution.set_name ⟨.ofHost classes, custom⟩ handle v x hw
    have hu : u.storage = ⟨w.heap,
        w.context.stores.setIfInBounds 0 ((w.context.stores.getD 0 []).insert x v)⟩ := by
      rw [World.storage, hheap, hstores]
    exact .inr (.inl ⟨u, hset, hu ▸ .name x⟩)
  | property base k =>
    obtain hrefused | ⟨y, g, u, hy, hg, hwrite, hu⟩ | ⟨y, u, hy, hu, hleft⟩ :=
      Resolution.write_cases ht hw ⟨.ofHost classes, custom⟩ handle k v
    · exact .inl hrefused
    · obtain ⟨a, c, c', hcell, hstored, rfl⟩ := Heap.stored_of_store? hg
      refine .inr (.inl ⟨u, hwrite, ?_⟩)
      rw [hu]
      exact .item hy hcell hstored
    · obtain ⟨a, rfl⟩ := object_of_leftByWriter hleft
      exact .inr (.inr ⟨y, u, hy, hu, hleft⟩)

end Denoted

section Assignments

variable {classes : Array HostClass} {custom : Nat → {α : Type} → Request α → Action α}
  (hchain : w.context.layout = .standard [] ro) (hquiet : w.context.listeners = [])
include hchain hquiet

/-- An assignment to what a tree denotes ends as the write to it does. -/
theorem assign_cases {d : Nat}
    (hdenote : denote ⟨.ofHost classes, custom⟩ depth b n w = .value (d, t) u) (v : Value) :
    (∃ e u', run ⟨.ofHost classes, custom⟩ depth (.assign b n v) w = .fault e u' ∧
      u'.storage = u.storage) ∨
      (∃ u', run ⟨.ofHost classes, custom⟩ depth (.assign b n v) w = .value () u' ∧
        Denoted.Stored u.storage v t u'.storage) ∨
      t.LeftByWriter ⟨.ofHost classes, custom⟩ (run ⟨.ofHost classes, custom⟩ d) u v
        (run ⟨.ofHost classes, custom⟩ depth (.assign b n v) w).storage? := by
  have hpair := assign_paired hchain hquiet hdenote v
  generalize run ⟨.ofHost classes, custom⟩ depth (.assign b n v) w = o at hpair ⊢
  obtain ⟨e, z, hwrite, hz⟩ | ⟨z, hwrite, hstored⟩ | hleft :=
    Denoted.write_cases (denote_based hdenote) (denote_plain hchain hquiet hdenote) classes custom
      (run ⟨.ofHost classes, custom⟩ d) v
  · have ho : Outcome.Paired (World.Twin w.context) (.fault e z) o := hwrite ▸ hpair
    cases ho with
    | @fault _ _ u' hu => exact .inl ⟨e, u', rfl, hu.storage.trans hz.storage⟩
  · have ho : Outcome.Paired (World.Twin w.context) (.value () z) o := hwrite ▸ hpair
    cases ho with
    | @value _ _ u' hu => exact .inr (.inl ⟨u', rfl, hu.storage ▸ hstored⟩)
  · exact .inr (.inr (hpair.storage?.symm ▸ hleft))

/-- Where the parts of a target come to no end or to a fault, so does the assignment. -/
theorem assign_undenoted (v : Value) :
    (∀ e u, denote host depth b n w = .fault e u →
      ∃ u', run host depth (.assign b n v) w = .fault e u' ∧ u'.storage = u.storage) ∧
    (denote host depth b n w = .exhausted → run host depth (.assign b n v) w = .exhausted) := by
  have hpair : Outcome.Paired _ ((denote host depth b n >>= fun d => d.2.write host (run host d.1) v) w)
      (run host depth (.assign b n v) w) :=
    assign_denoted (Host.steady_standard host ro) hchain hquiet v (.self w)
  generalize run host depth (.assign b n v) w = o at hpair ⊢
  refine ⟨fun e u hfault => ?_, fun hexhausted => ?_⟩
  · rw [Action.bind_fault hfault] at hpair
    cases hpair with
    | @fault _ _ u' hu => exact ⟨u', rfl, hu.storage⟩
  · rw [Action.bind_exhausted hexhausted] at hpair
    cases hpair
    rfl

/-- An assignment changes one place at most, as the last that it does. It fails with the parts of its
target, or after them and without a change, unless the code of a writer ran last. Where it succeeds, the
value is stored in the one place that the target denotes, unless that is a property of an object of the
host, whose writer ran last. -/
theorem assignment_atomic (v : Value) :
    (∀ e u', run ⟨.ofHost classes, custom⟩ depth (.assign b n v) w = .fault e u' →
      (∃ u, denote ⟨.ofHost classes, custom⟩ depth b n w = .fault e u ∧ u'.storage = u.storage) ∨
      ∃ d t u, denote ⟨.ofHost classes, custom⟩ depth b n w = .value (d, t) u ∧
        (u'.storage = u.storage ∨
          t.LeftByWriter ⟨.ofHost classes, custom⟩ (run ⟨.ofHost classes, custom⟩ d) u v
            (some u'.storage))) ∧
    ∀ u', run ⟨.ofHost classes, custom⟩ depth (.assign b n v) w = .value () u' →
      ∃ d t u, denote ⟨.ofHost classes, custom⟩ depth b n w = .value (d, t) u ∧
        (Denoted.Stored u.storage v t u'.storage ∨
          t.LeftByWriter ⟨.ofHost classes, custom⟩ (run ⟨.ofHost classes, custom⟩ d) u v
            (some u'.storage)) := by
  cases hdenote : denote ⟨.ofHost classes, custom⟩ depth b n w with
  | fault e u =>
    obtain ⟨u₁, hrun, hu⟩ := (assign_undenoted hchain hquiet v).1 e u hdenote
    rw [hrun]
    refine ⟨fun e' u' h => ?_, nofun⟩
    cases h
    exact .inl ⟨u, rfl, hu⟩
  | exhausted =>
    rw [(assign_undenoted hchain hquiet v).2 hdenote]
    exact ⟨nofun, nofun⟩
  | value r u =>
    obtain ⟨d, t⟩ := r
    obtain ⟨e, u₁, hrun, hu⟩ | ⟨u₁, hrun, hstored⟩ | hleft :=
      assign_cases hchain hquiet hdenote v
    · rw [hrun]
      refine ⟨fun e' u' h => ?_, nofun⟩
      cases h
      exact .inr ⟨d, t, u, rfl, .inl hu⟩
    · rw [hrun]
      refine ⟨nofun, fun u' h => ?_⟩
      cases h
      exact ⟨d, t, u, rfl, .inl hstored⟩
    · refine ⟨fun e' u' h => .inr ⟨d, t, u, rfl, .inr ?_⟩, fun u' h => ⟨d, t, u, rfl, .inr ?_⟩⟩
      · rwa [h] at hleft
      · rwa [h] at hleft

end Assignments

/-- An item of the map `m` is stored in the map alone. The list `l` has no place for its item, and nothing
changes. -/
theorem item_stored_or_refused :
    (∃ u u', denote .bare 2 .empty (.path (.name "m") [indexing (.text "a")]) itemWorld =
        .value (1, .property (.map 0) (.text "a")) u ∧
      run .bare 2 (.assign .empty (.path (.name "m") [indexing (.text "a")]) (.long 1)) itemWorld =
        .value () u' ∧
      Denoted.Stored u.storage (.long 1) (.property (.map 0) (.text "a")) u'.storage) ∧
    ∃ e u', run .bare 2 (.assign .empty (.path (.name "l") [indexing (.integer "5")]) (.long 1))
        itemWorld = .fault e u' ∧ u'.storage = itemWorld.storage := by
  have hm := eval_itemWorld (w := itemWorld) (n := "m") rfl rfl
  have hk (w : World) : run .bare 1 (.eval .empty (.text "a")) w = .value (.text "a") w := rfl
  have hstore := (assign_item (v := .long 1) rfl rfl hm (hk _)).mpr
    ⟨rfl, trivial, _, _, rfl, rfl, rfl⟩
  have hrefuse : ∃ e u', run .bare 2 (.assign .empty (.path (.name "l") [indexing (.integer "5")])
      (.long 1)) itemWorld = .fault e u' := ⟨_, _, rfl⟩
  have hmap : ∃ u, denote .bare 2 .empty (.path (.name "m") [indexing (.text "a")]) itemWorld =
      .value (1, .property (.map 0) (.text "a")) u := ⟨_, rfl⟩
  have hlist : ∃ u, denote .bare 2 .empty (.path (.name "l") [indexing (.integer "5")]) itemWorld =
      .value (1, .property (.list 1) (.long 5)) u ∧ u.storage = itemWorld.storage := ⟨_, rfl, rfl⟩
  constructor
  · obtain ⟨u, hu⟩ := hmap
    obtain ⟨d, t, w, hdenote, hstored | hleft⟩ :=
      (assignment_atomic (w := itemWorld) rfl rfl (.long 1)).2 _ hstore
    · cases hu.symm.trans hdenote
      exact ⟨u, _, hu, hstore, hstored⟩
    · cases hu.symm.trans hdenote
      exact hleft.elim
  · obtain ⟨e, u', hu'⟩ := hrefuse
    obtain ⟨u, hu, hkept⟩ := hlist
    obtain ⟨w, hdenote, -⟩ | ⟨d, t, w, hdenote, hsame | hleft⟩ :=
      (assignment_atomic (w := itemWorld) rfl rfl (.long 1)).1 e u' hu'
    · cases hu.symm.trans hdenote
    · cases hu.symm.trans hdenote
      exact ⟨e, u', hu', hsame.trans hkept⟩
    · cases hu.symm.trans hdenote
      exact hleft.elim

end Evaluation

end ExprLang
