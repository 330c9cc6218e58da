import ExprLang.Proofs.Evaluation.Operation
import ExprLang.Proofs.Heap.Finite
import ExprLang.Proofs.Heap.Tidy

/-! Operations one after the other, and what becomes of sets and maps meanwhile. -/

namespace ExprLang

/-- A world with the values that operations gave. -/
structure Stage where
  world : World
  held : List Value

namespace Stage

variable {R : Regime} {m : Memory} {s t : Stage}

/-- The world has these cells, and nothing refers to others. -/
structure Grounded (R : Regime) (m : Memory) (s : Stage) : Prop where
  standing : R.Standing m s.world
  held : m.KnowsAll s.held

/-- The operation refers to no cells but those of the stage. -/
def Admits {α : Type} (R : Regime) (s : Stage) (o : Operation α) : Prop :=
  ∀ m, s.Grounded R m → o.Grounded m

/-- One operation, which may also fail. -/
inductive Step (R : Regime) : Stage → Stage → Prop
  | value {α : Type} {s : Stage} {o : Operation α} {depth : Nat} {a : α} {u : World}
      (ho : s.Admits R o)
      (h : o.perform R.host (Evaluation.run R.host depth) s.world = .value a u) :
      Step R s ⟨u, o.values a ++ s.held⟩
  | fault {α : Type} {s : Stage} {o : Operation α} {depth : Nat} {e : Fault} {u : World}
      (ho : s.Admits R o)
      (h : o.perform R.host (Evaluation.run R.host depth) s.world = .fault e u) :
      Step R s ⟨u, s.held⟩

/-- Any number of operations. -/
abbrev Session (R : Regime) : Stage → Stage → Prop := Relation.ReflTransGen (Step R)

theorem Step.reached (hc : R.host.Conforms R.guarded) (hs : s.Grounded R m) (h : Step R s t) :
    ∃ m', R.Reaches m m' ∧ t.Grounded R m' := by
  cases h with
  | @value α s o depth a u ho h =>
    have hends := Operation.perform_tracks ⟨hc, Evaluation.run_tracks hc depth⟩ (ho m hs) m _ .refl
      hs.standing
    rw [h] at hends
    obtain ⟨m', hm, hu, hvalues⟩ := hends
    have hheld := Value.grounded_all_mono hs.held hm.kinds
    exact ⟨m', hm, hu, List.forall_mem_append.mpr ⟨hvalues, hheld⟩⟩
  | @fault α s o depth e u ho h =>
    have hends := Operation.perform_tracks ⟨hc, Evaluation.run_tracks hc depth⟩ (ho m hs) m _ .refl
      hs.standing
    rw [h] at hends
    obtain ⟨m', hm, hu⟩ := hends
    exact ⟨m', hm, hu, Value.grounded_all_mono hs.held hm.kinds⟩

theorem Session.reached (hc : R.host.Conforms R.guarded) (hs : s.Grounded R m) (h : Session R s t) :
    ∃ m', R.Reaches m m' ∧ t.Grounded R m' := by
  induction h with
  | refl => exact ⟨m, .refl, hs⟩
  | tail _ hstep ih =>
    obtain ⟨m₁, h₁, hs₁⟩ := ih
    obtain ⟨m₂, h₂, hs₂⟩ := hstep.reached hc hs₁
    exact ⟨m₂, h₁.trans h₂, hs₂⟩

/-! ### A set of two lists -/

/-- The lists `[1]` and `[2]`, the set of both, and the list `[5]`. -/
def listsMemory : Memory where
  kinds := [.list, .list, .set, .list]
  heap := ⟨Host.bare.classes.lineage, #[.items [.long 1], .items [.long 2],
    .items [.list 0, .list 1], .items [.long 5]]⟩
  grounded :=
    have hlong (n : Int64) : ∀ v ∈ [Value.long n], v.Grounded [.list, .list, .set, .list] :=
      List.forall_mem_singleton.mpr (Value.grounded_of_isAtom rfl)
    .cons (.list (hlong 1)) (.cons (.list (hlong 2)) (.cons (.set (List.forall_mem_cons.mpr
      ⟨Value.grounded_list rfl, List.forall_mem_singleton.mpr (Value.grounded_list rfl)⟩))
      (.cons (.list (hlong 5)) .nil)))

theorem listsMemory_distinct : listsMemory.Distinct := by
  intro a
  match a with
  | 2 =>
    refine List.pairwise_pair.mpr ?_
    rintro (heq | heq) <;> cases heq
  | 0 | 1 | 3 | a + 4 => exact .nil

/-- The set holds lists of numbers, but not the last list. -/
theorem listsMemory_members (a : Address) :
    ∀ v ∈ listsMemory.members a, listsMemory.heap.Flat v ∧ v.cell? ≠ some 3 := by
  match a with
  | 2 =>
    exact List.forall_mem_cons.mpr ⟨⟨List.forall_mem_singleton.mpr rfl, nofun⟩,
      List.forall_mem_singleton.mpr ⟨List.forall_mem_singleton.mpr rfl, nofun⟩⟩
  | 0 | 1 | 3 | a + 4 => exact nofun

/-- The set, with its first list and the list that is none of its items as beans. -/
def listsStage : Stage where
  world :=
    { heap := listsMemory.heap
      context :=
        { Context.standard false false with
          stores := #[[("l", .list 0), ("o", .list 3)]] }
      log := [] }
  held := [.set 2]

theorem listsStage_grounded (guarded : CellKind → Bool) :
    listsStage.Grounded ⟨.bare, false, guarded⟩ listsMemory where
  standing :=
    { heap := rfl
      layout := rfl
      context := by
        refine ⟨nofun, fun i => ?_, nofun⟩
        cases i with
        | zero =>
          exact List.forall_mem_cons.mpr
            ⟨Value.grounded_list rfl, List.forall_mem_singleton.mpr (Value.grounded_list rfl)⟩
        | succ i => exact nofun
      fields := Host.bare_fields _ }
  held := List.forall_mem_singleton.mpr (Value.grounded_set rfl)

/-- Stores a value as the first item of a list. -/
def storeFirst (name : String) (x : Value) : Operation Unit :=
  .write (.parsed name (.path (.name name) [Evaluation.indexing (.integer "0")]) .empty none) x

theorem storeFirst_admitted {name : String} {x : Value}
    (hx : ∀ m, s.Grounded R m → m.Knows x) : s.Admits R (storeFirst name x) :=
  fun m hm => ⟨ValueExpr.grounded_parsed (Bound.grounded_mk nofun), hx m hm⟩

theorem storeFirst_session (name : String) {a : Address} {v x : Value}
    (hname : (listsStage.world.context.store 0).find? name = some (.list a))
    (hitems : listsMemory.heap.items a = [v]) (guarded : CellKind → Bool)
    (hx : ∀ m, listsStage.Grounded ⟨.bare, false, guarded⟩ m → m.Knows x) :
    ∃ u, Session ⟨.bare, false, guarded⟩ listsStage ⟨u, [.set 2]⟩ ∧
      u.heap = listsMemory.heap.put a (.items [x]) := by
  let w := { listsStage.world with log := [.before name] }
  have hlist : Evaluation.run .bare 1 (.eval .empty (.name name)) w =
      .value (.list a) (w.claimed .null (.text name)) :=
    Evaluation.eval_bean rfl rfl rfl hname rfl
  have hzero (w : World) :
      Evaluation.run .bare 1 (.eval .empty (.integer "0")) w = .value (.long 0) w := rfl
  have hplace : listsMemory.heap.HasPlace (.list a) (.long 0) := by
    rw [Heap.HasPlace, hitems]
    rfl
  have hstore : listsMemory.heap.store? (.list a) (.long 0) x =
      some (listsMemory.heap.put a (.items [x])) := by
    rw [Heap.store?, hitems]
    rfl
  have hitem : listsMemory.heap.itemFor (.list a) x = .ok x := by
    unfold Heap.itemFor
    split <;> rfl
  have hassign := (Evaluation.assign_item (v := x) rfl rfl hlist (hzero _)).mpr
    ⟨rfl, hplace, x, _, hitem, hstore, rfl⟩
  have hwrite : ∃ u, (storeFirst name x).perform .bare (Evaluation.run .bare 2) listsStage.world =
      .value () u ∧ u.heap = listsMemory.heap.put a (.items [x]) := by
    show ∃ u, bracketed _ _ _ = .value () u ∧ _
    rw [bracketed, Action.bind_value (show Action.notify _ listsStage.world = .value () w from rfl),
      Action.bind_value hassign]
    exact ⟨_, rfl, rfl⟩
  obtain ⟨u, hu, hheap⟩ := hwrite
  have hstep : Step ⟨.bare, false, guarded⟩ listsStage ⟨u, [.set 2]⟩ :=
    .value (o := storeFirst name x) (storeFirst_admitted hx) hu
  exact ⟨u, .single hstep, hheap⟩

/-- After any operations, two items of a set or two keys of a map are equal only if both are
collections or arrays. If writes lead there that change nothing inside of items and keys, no two are
equal at all. Code of the host leaves sets and maps alone. -/
theorem members_stay_distinct {classes : Array HostClass}
    {custom : Nat → {α : Type} → Request α → Action α} {ro : Bool}
    (hhost : ∀ c ∈ classes, c.Conforms CellKind.isKeyed)
    (hs : s.Grounded ⟨⟨.ofHost classes, custom⟩, ro, CellKind.isKeyed⟩ m) (hm : m.Distinct)
    (h : Session ⟨⟨.ofHost classes, custom⟩, ro, CellKind.isKeyed⟩ s t) :
    ∃ m', t.Grounded ⟨⟨.ofHost classes, custom⟩, ro, CellKind.isKeyed⟩ m' ∧
      m.Reaches CellKind.isKeyed m' ∧ m'.Apart ∧ (m.QuietlyReaches m' → m'.Distinct) := by
  obtain ⟨m', hreach, ht⟩ := h.reached (Host.conforms_ofHost hhost) hs
  exact ⟨m', ht, hreach, hreach.apart hm.apart, fun hquiet => hquiet.distinct hm⟩

/-- A list of the set becomes the other one. -/
theorem changed_items_clash :
    listsStage.Grounded ⟨.bare, false, CellKind.isKeyed⟩ listsMemory ∧ listsMemory.Distinct ∧
      ∃ t, Session ⟨.bare, false, CellKind.isKeyed⟩ listsStage t ∧
        ∀ m, t.Grounded ⟨.bare, false, CellKind.isKeyed⟩ m → ¬m.Distinct := by
  obtain ⟨u, hsession, hheap⟩ := storeFirst_session "l" (x := .long 2) rfl rfl CellKind.isKeyed
    fun _ _ => Value.grounded_of_isAtom rfl
  refine ⟨listsStage_grounded _, listsMemory_distinct, ⟨u, [.set 2]⟩, hsession,
    fun m hm hdistinct => ?_⟩
  have hset : m.kinds[2]? = some .set := (hm.held (.set 2) List.mem_cons_self).has
  have hclash := hdistinct 2
  rw [Memory.members_eq_items hset, ← hm.standing.heap, hheap] at hclash
  exact List.pairwise_pair.mp hclash (.inl rfl)

/-- A list that is no item of the set changes. -/
theorem items_kept_distinct : ∃ t m, Session ⟨.bare, false, CellKind.isKeyed⟩ listsStage t ∧
    t.Grounded ⟨.bare, false, CellKind.isKeyed⟩ m ∧ t.world.heap.items 3 = [.long 7] ∧
      t.world.heap.items 2 = [.list 0, .list 1] ∧ m.Distinct := by
  obtain ⟨u, hsession, hheap⟩ := storeFirst_session "o" (x := .long 7) rfl rfl CellKind.isKeyed
    fun _ _ => Value.grounded_of_isAtom rfl
  have hhost : ∀ c ∈ (#[] : Array HostClass), c.Conforms CellKind.isKeyed := nofun
  obtain ⟨m, hm, hreach, -, hquiet⟩ :=
    members_stay_distinct hhost (listsStage_grounded _) listsMemory_distinct hsession
  have hheap' : m.heap = listsMemory.heap.put 3 (.items [.long 7]) := hm.standing.heap.symm.trans hheap
  have hkinds : m.kinds = listsMemory.kinds := by
    refine (hreach.kinds.eq_of_length ?_).symm
    rw [m.grounded.length, hheap']
    rfl
  refine ⟨_, m, hsession, hm, ?_, ?_, hquiet (.single ⟨?_, ?_⟩)⟩
  · rw [hheap]
    rfl
  · rw [hheap]
    rfl
  · exact .put (a := 3) (s := .list) rfl (.items _)
      (.list (List.forall_mem_singleton.mpr (Value.grounded_of_isAtom rfl))) hkinds hheap'
  · intro a v hv
    have hsame : m.members a = listsMemory.members a := by
      by_cases ha : a = 3
      · subst ha
        rw [Memory.members_eq_nil fun s hs => by rw [hkinds] at hs; cases hs; rfl]
        rfl
      · exact Memory.members_of_kept (by rw [hkinds])
          (by rw [hheap', Heap.cell_put_of_ne _ (Ne.symm ha)])
    rw [hsame] at hv
    obtain ⟨hflat, hne⟩ := listsMemory_members a v hv
    refine ⟨hflat.acyclic, hflat.sameInside fun b hb => ?_⟩
    have hb3 : 3 ≠ b := by
      rintro rfl
      exact hne hb
    rw [hheap', Heap.cell_put_of_ne _ hb3]

end Stage

end ExprLang

/-! ## Collections that contain themselves

Collections that contain themselves: only a write can make them, and only one that stores in a
collection what that collection lies in. Until then all that is read from values comes to an end. -/

namespace ExprLang

namespace Stage

variable {m : Memory} {s t : Stage}

/-- Where no collection contains itself, none does after any operations, unless one of their writes has
stored in a collection a value in which that very collection lies. As long as none does, all that is
read from the values of the stage comes to an end, and any value is displayed to an end exactly if
nothing inside contains itself. -/
theorem collections_stay_untangled {classes : Array HostClass}
    {custom : Nat → {α : Type} → Request α → Action α} {ro : Bool}
    (hhost : ∀ c ∈ classes, c.Conforms CellKind.isCollection)
    (hs : s.Grounded ⟨⟨.ofHost classes, custom⟩, ro, CellKind.isCollection⟩ m)
    (hm : s.world.heap.Untangled)
    (h : Session ⟨⟨.ofHost classes, custom⟩, ro, CellKind.isCollection⟩ s t) :
    ∃ m', t.Grounded ⟨⟨.ofHost classes, custom⟩, ro, CellKind.isCollection⟩ m' ∧
      m.Reaches CellKind.isCollection m' ∧
      (t.world.heap.Untangled ∨ ∃ m₁ m₂, m.Reaches CellKind.isCollection m₁ ∧ m₁.heap.Untangled ∧
        m₁.Change CellKind.isCollection m₂ ∧ m₁.Knot m₂ ∧ m₂.Reaches CellKind.isCollection m') ∧
      (t.world.heap.Untangled → ∀ v, m'.Knows v → t.world.heap.Readable v) ∧
      ∀ v, m'.Knows v →
        ((∃ n, (t.world.heap.displayWithin? n v).isSome = true) ↔ t.world.heap.Acyclic v) := by
  obtain ⟨m', hreach, ht⟩ := h.reached (Host.conforms_ofHost hhost) hs
  rw [hs.standing.heap] at hm
  refine ⟨m', ht, hreach, ?_⟩
  rw [ht.standing.heap]
  exact ⟨hreach.untangled_or_knot hm, fun hm' v hv => (hm'.acyclic v).readable m'.grounded hv,
    fun v hv => Heap.display_ends_iff m'.grounded hv⟩

/-- No list of the stage holds a collection. -/
theorem listsMemory_untangled : listsMemory.heap.Untangled := by
  refine Heap.untangled_of_rank (fun a => if a = 2 then 1 else 0) fun a b hab => ?_
  obtain ⟨w, hw, hwb⟩ := hab
  match a with
  | 2 =>
    rcases List.mem_pair.mp hw with rfl | rfl <;> cases hwb <;> decide
  | 0 | 1 | 3 =>
    rw [List.mem_singleton.mp hw] at hwb
    cases hwb
  | a + 4 => cases hw

/-- A list becomes its own first item. From then on its text has no end. -/
theorem list_in_itself :
    listsStage.Grounded ⟨.bare, false, CellKind.isCollection⟩ listsMemory ∧
      listsStage.world.heap.Untangled ∧
      ∃ t, Session ⟨.bare, false, CellKind.isCollection⟩ listsStage t ∧ ¬t.world.heap.Untangled ∧
        ∀ n, t.world.heap.displayWithin? n (.list 0) = none := by
  obtain ⟨u, hsession, hheap⟩ := storeFirst_session "l" (x := .list 0) rfl rfl
    CellKind.isCollection fun m hm => hm.standing.context.stores 0 ("l", .list 0) List.mem_cons_self
  have hitems : u.heap.items 0 = [.list 0] := by
    rw [hheap]
    rfl
  have hheld : u.heap.held 0 = [.list 0] := by
    rw [hheap]
    rfl
  refine ⟨listsStage_grounded _, listsMemory_untangled, _, hsession, fun hu => ?_, fun n => ?_⟩
  · exact hu 0 (.single ⟨.list 0, hheld ▸ List.mem_cons_self, rfl⟩)
  · induction n with
    | zero => rfl
    | succ n ih =>
      rw [Heap.displayWithin?, hitems, List.mapM_cons, ih]
      rfl

/-- A list becomes the first item of another one. -/
theorem list_in_other_list : ∃ t, Session ⟨.bare, false, CellKind.isCollection⟩ listsStage t ∧
    t.world.heap.items 0 = [.list 3] ∧ t.world.heap.Untangled ∧ t.world.heap.Readable (.set 2) := by
  obtain ⟨u, hsession, hheap⟩ := storeFirst_session "l" (x := .list 3) rfl rfl
    CellKind.isCollection fun m hm =>
      hm.standing.context.stores 0 ("o", .list 3) (List.mem_cons_of_mem _ List.mem_cons_self)
  have hhost : ∀ c ∈ (#[] : Array HostClass), c.Conforms CellKind.isCollection := nofun
  obtain ⟨m, hm, -, -, hreadable, -⟩ :=
    collections_stay_untangled hhost (listsStage_grounded _) listsMemory_untangled hsession
  have huntangled : u.heap.Untangled := by
    rw [hheap]
    refine Heap.untangled_of_rank (fun a => if a = 2 then 2 else if a = 0 then 1 else 0)
      fun a b hab => ?_
    obtain ⟨w, hw, hwb⟩ := hab
    match a with
    | 2 => rcases List.mem_pair.mp hw with rfl | rfl <;> cases hwb <;> decide
    | 0 | 1 | 3 => rw [List.mem_singleton.mp hw] at hwb; cases hwb <;> decide
    | a + 4 => cases hw
  refine ⟨_, hsession, ?_, huntangled, hreadable huntangled _ (hm.held _ List.mem_cons_self)⟩
  rw [hheap]
  rfl

end Stage

end ExprLang
