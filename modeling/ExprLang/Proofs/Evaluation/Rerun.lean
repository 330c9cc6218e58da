import ExprLang.Proofs.Evaluation.Simulation
import ExprLang.Proofs.Evaluation.Tracked
import ExprLang.Proofs.Heap.Twins

/-! Two runs from the same names, the second one with more cells. They go on alike, where the second one
has its new cells at later addresses. -/

namespace ExprLang

variable {α β : Type}

/-- The context, whatever was claimed last. -/
def Context.flagged (c : Context) (b : Bool) : Context := { c with resolved := b }

namespace Context

variable (c : Context) (b : Bool)

@[simp] theorem store_flagged (i : Nat) : (c.flagged b).store i = c.store i := rfl

@[simp] theorem argument?_flagged (name : String) :
    (c.flagged b).argument? name = c.argument? name := rfl

@[simp] theorem imports_flagged : (c.flagged b).imports = c.imports := rfl

end Context

/-- The cells and the names with which both runs start, and how many more cells the second one starts
with. -/
structure Rerun where
  memory : Memory
  context : Context
  distance : Nat

namespace Rerun

/-- The names stand for known values in the standard chain, as constants of classes do, and nobody
listens. -/
structure Standing (host : Host) (s : Rerun) : Prop where
  layout : ∃ readOnly, s.context.layout = .standard [] readOnly
  listeners : s.context.listeners = []
  context : s.context.Grounded s.memory.kinds
  fields (c : ClassId) : ∀ f ∈ (host.classes.members c).fields, s.memory.Knows f.value

/-- The same on both sides. -/
abbrev Agree (_ : Nat) (a b : α) : Prop := b = a

/-- What more cells do not change. -/
def Lasting (r : Nat → α → α → Prop) : Prop := ∀ m n a b, m ≤ n → r m a b → r n a b

variable (s : Rerun)

/-- The value in the second run for one in the first run. -/
abbrev moved (v : Value) : Value := v.rename (s.memory.shifted s.distance)

/-- Values for each other in both runs, the first one in one of the first `n` cells. -/
structure Same (n : Nat) (v w : Value) : Prop where
  below : v.Below n
  eq : w = s.moved v

structure SameAll (n : Nat) (vs ws : List Value) : Prop where
  below : ∀ v ∈ vs, v.Below n
  eq : ws = vs.map s.moved

structure SameEntries (n : Nat) (es ds : List (Value × Value)) : Prop where
  below : ∀ e ∈ es, e.1.Below n ∧ e.2.Below n
  eq : ds = es.map (renameEntry (s.memory.shifted s.distance))

/-- The worlds of both runs. Whether the last request was claimed may differ, unless they are in
step. -/
structure Worlds (inStep : Bool) (w u : World) : Prop where
  heaps : s.memory.Twins s.distance w.heap u.heap
  first : w.context = s.context.flagged w.context.resolved
  second : u.context = s.context.flagged u.context.resolved
  flags : inStep = true → u.context.resolved = w.context.resolved

/-- Both runs come to values for each other, to the same fault, or nest too deep. -/
inductive Outcomes (inStep : Bool) (n : Nat) (r : Nat → α → α → Prop) : Outcome α → Outcome α → Prop
  | value {a b : α} {w u : World} (hw : s.Worlds inStep w u) (hn : n ≤ w.heap.cells.size)
      (hr : r w.heap.cells.size a b) : Outcomes inStep n r (.value a w) (.value b u)
  | fault {e : Fault} {w u : World} (hw : s.Worlds inStep w u) :
      Outcomes inStep n r (.fault e w) (.fault e u)
  | exhausted : Outcomes inStep n r .exhausted .exhausted

/-- The second computation does what the first one does, once there are `n` cells. -/
def Repeats (inStep : Bool) (n : Nat) (x y : Action α) (r : Nat → α → α → Prop) : Prop :=
  ∀ w u, s.Worlds inStep w u → n ≤ w.heap.cells.size →
    s.Outcomes inStep w.heap.cells.size r (x w) (y u)

variable {s} {inStep : Bool} {m n : Nat} {v w : Value} {vs ws : List Value}

/-! ## Values -/

theorem Same.mono (h : s.Same m v w) (hn : m ≤ n) : s.Same n v w := ⟨h.below.mono hn, h.eq⟩

theorem SameAll.mono (h : s.SameAll m vs ws) (hn : m ≤ n) : s.SameAll n vs ws :=
  ⟨fun v hv => (h.below v hv).mono hn, h.eq⟩

theorem SameEntries.mono {es ds : List (Value × Value)} (h : s.SameEntries m es ds) (hn : m ≤ n) :
    s.SameEntries n es ds :=
  ⟨fun e he => ⟨(h.below e he).1.mono hn, (h.below e he).2.mono hn⟩, h.eq⟩

theorem Same.isNull (h : s.Same n v w) : w.isNull = v.isNull := by
  rw [h.eq]
  cases v <;> rfl

theorem lasting_same : Lasting s.Same := fun _ _ _ _ hn h => h.mono hn

theorem same_of_isAtom (hv : v.isAtom = true) : s.Same n v v where
  below := Value.below_of_isAtom hv
  eq := by
    rcases v.rename_or (s.memory.shifted s.distance) with h | ⟨hatom, -⟩
    · exact h.symm
    · cases hatom.symm.trans hv

/-- A known value is the same in both runs. -/
theorem same_of_known (hv : s.memory.Knows v) : s.Same s.memory.heap.cells.size v v where
  below := s.memory.grounded.length ▸ hv.below
  eq := (Memory.rename_known hv).symm

theorem SameAll.nil : s.SameAll n [] [] := ⟨nofun, rfl⟩

theorem SameAll.cons (hv : s.Same n v w) (hvs : s.SameAll n vs ws) :
    s.SameAll n (v :: vs) (w :: ws) where
  below := List.forall_mem_cons.mpr ⟨hv.below, hvs.below⟩
  eq := by rw [hv.eq, hvs.eq, List.map_cons]

theorem SameEntries.nil : s.SameEntries n [] [] := ⟨nofun, rfl⟩

theorem SameEntries.cons {es ds : List (Value × Value)} {key key' : Value} (hkey : s.Same n key key')
    (hv : s.Same n v w) (hes : s.SameEntries n es ds) :
    s.SameEntries n ((key, v) :: es) ((key', w) :: ds) where
  below := List.forall_mem_cons.mpr ⟨⟨hkey.below, hv.below⟩, hes.below⟩
  eq := by rw [hkey.eq, hv.eq, hes.eq, List.map_cons, renameEntry]

/-! ## New cells -/

/-- Values for each other, each in a new cell behind those of the first heap. -/
structure Made (s : Rerun) (g : Heap) (x y : Value × Heap) : Prop where
  grown : g.cells.size ≤ x.2.cells.size
  twins : s.memory.Twins s.distance x.2 y.2
  same : s.Same x.2.cells.size x.1 y.1

section Made

variable {g h : Heap} (ht : s.memory.Twins s.distance g h)
include ht

theorem made_alloc {c : Cell} {make : Address → Value} (hc : ∀ v ∈ c.values, v.Below g.cells.size)
    (haddress : ∀ a, (make a).address? = some a) (hmake : ∀ a f, (make a).rename f = make (f a)) :
    s.Made g (make g.cells.size, (g.alloc c).2)
      (make h.cells.size, (h.alloc (c.rename (s.memory.shifted s.distance))).2) := by
  have hlt : g.cells.size < (g.alloc c).2.cells.size := by simp [Heap.alloc]
  refine ⟨Nat.le_of_lt hlt, ht.alloc hc, fun a ha => ?_, ?_⟩
  · rw [haddress] at ha
    cases ha
    exact hlt
  · rw [← ht.size_eq]
    exact (hmake _ _).symm

variable (hn : n ≤ g.cells.size)
include hn

theorem made_list (hvs : s.SameAll n vs ws) : s.Made g (g.newList vs) (h.newList ws) := by
  rw [hvs.eq]
  exact made_alloc ht (fun v hv => (hvs.below v hv).mono hn) (fun _ => rfl) fun _ _ => rfl

theorem made_set (hvs : s.SameAll n vs ws) : s.Made g (g.newSet vs) (h.newSet ws) := by
  rw [hvs.eq, Heap.newSet, Heap.newSet, ht.distinct]
  exact made_alloc ht (fun v hv => (hvs.below v (g.mem_of_mem_distinct hv)).mono hn) (fun _ => rfl)
    fun _ _ => rfl

theorem made_map {es ds : List (Value × Value)} (hes : s.SameEntries n es ds) :
    s.Made g (g.newMap es) (h.newMap ds) := by
  have hkept := g.forall_mem_putEntries fun e he => hes.below e he
  rw [hes.eq, Heap.newMap, Heap.newMap, ht.putEntries]
  refine made_alloc ht (fun v hv => ?_) (fun _ => rfl) fun _ _ => rfl
  obtain ⟨e, he, hv⟩ := List.mem_flatMap.mp hv
  rcases List.mem_pair.mp hv with rfl | rfl
  · exact (hkept e he).1.mono hn
  · exact (hkept e he).2.mono hn

end Made

/-! ## Worlds -/

namespace Worlds

variable {w u : World}

theorem layout (hw : s.Worlds inStep w u) :
    w.context.layout = s.context.layout ∧ u.context.layout = s.context.layout :=
  ⟨by rw [hw.first]; rfl, by rw [hw.second]; rfl⟩

theorem listeners (hw : s.Worlds inStep w u) :
    w.context.listeners = s.context.listeners ∧ u.context.listeners = s.context.listeners :=
  ⟨by rw [hw.first]; rfl, by rw [hw.second]; rfl⟩

theorem loose (hw : s.Worlds true w u) : s.Worlds inStep w u :=
  { hw with flags := fun _ => hw.flags rfl }

theorem flagged (hw : s.Worlds inStep w u) (b : Bool) :
    s.Worlds true (w.flagged b) (u.flagged b) := by
  have hflag {k : World} (hk : k.context = s.context.flagged k.context.resolved) :
      k.context.flagged b = s.context.flagged b := by
    rw [hk]
    rfl
  exact ⟨hw.heaps, hflag hw.first, hflag hw.second, fun _ => rfl⟩

theorem logged (hw : s.Worlds inStep w u) (e e' : Event) :
    s.Worlds inStep { w with log := e :: w.log } { u with log := e' :: u.log } :=
  ⟨hw.heaps, hw.first, hw.second, hw.flags⟩

/-- The worlds once cells are written. -/
theorem written {g h : Heap} (hw : s.Worlds inStep w u) (hgh : s.memory.Twins s.distance g h) :
    s.Worlds inStep { w with heap := { w.heap with cells := g.cells } }
      { u with heap := { u.heap with cells := h.cells } } := by
  have hg : ({ w.heap with cells := g.cells } : Heap) = g :=
    congrArg (Heap.mk · g.cells) (hw.heaps.lineage.trans hgh.lineage.symm)
  have hlineage : u.heap.lineage = h.lineage := by
    rw [hw.heaps.renames.lineage, hw.heaps.lineage, hgh.renames.lineage, hgh.lineage]
  have hh : ({ u.heap with cells := h.cells } : Heap) = h := congrArg (Heap.mk · h.cells) hlineage
  exact ⟨by rw [hg, hh]; exact hgh, hw.first, hw.second, hw.flags⟩

end Worlds

/-! ## Computations -/

theorem Outcomes.grown {r : Nat → α → α → Prop} {o p : Outcome α} (h : s.Outcomes inStep n r o p)
    (hn : m ≤ n) : s.Outcomes inStep m r o p := by
  cases h with
  | value hw hsize hr => exact .value hw (hn.trans hsize) hr
  | fault hw => exact .fault hw
  | exhausted => exact .exhausted

theorem Outcomes.loose {r : Nat → α → α → Prop} {o p : Outcome α} (h : s.Outcomes true n r o p) :
    s.Outcomes inStep n r o p := by
  cases h with
  | value hw hsize hr => exact .value hw.loose hsize hr
  | fault hw => exact .fault hw.loose
  | exhausted => exact .exhausted

namespace Repeats

variable {x y : Action α} {f f' : α → Action β} {p : Nat → α → α → Prop} {r : Nat → β → β → Prop}

theorem later (h : s.Repeats inStep m x y p) (hn : m ≤ n) : s.Repeats inStep n x y p :=
  fun w u hw hsize => h w u hw (hn.trans hsize)

theorem pure {a b : α} (h : ∀ n', n ≤ n' → p n' a b) :
    s.Repeats inStep n (pure a) (pure b) p :=
  fun w _ hw hsize => .value hw le_rfl (h w.heap.cells.size hsize)

theorem pure_agree (a : α) : s.Repeats inStep n (Pure.pure a) (Pure.pure a) Agree :=
  pure fun _ _ => rfl

theorem pure_same (h : s.Same n v w) :
    s.Repeats inStep n (Pure.pure v) (Pure.pure w) s.Same :=
  pure fun _ hn => h.mono hn

theorem fail (e : Fault) : s.Repeats inStep n (Action.fail e) (Action.fail e) p :=
  fun _ _ hw _ => .fault hw

theorem bind (hx : s.Repeats inStep n x y p)
    (hf : ∀ n' a b, n ≤ n' → p n' a b → s.Repeats inStep n' (f a) (f' b) r) :
    s.Repeats inStep n (x >>= f) (y >>= f') r := by
  intro w u hw hsize
  have ho := hx w u hw hsize
  generalize hxw : x w = o at ho
  generalize hyu : y u = q at ho
  cases ho with
  | value hw' hn hp =>
    rw [Action.bind_value hxw, Action.bind_value hyu]
    exact (hf _ _ _ (hsize.trans hn) hp _ _ hw' le_rfl).grown hn
  | fault hw' =>
    rw [Action.bind_fault hxw, Action.bind_fault hyu]
    exact .fault hw'
  | exhausted =>
    rw [Action.bind_exhausted hxw, Action.bind_exhausted hyu]
    exact .exhausted

theorem map (k : α → β) (hr : Lasting r) (hx : s.Repeats inStep n x y p)
    (hk : ∀ n' a b, p n' a b → r n' (k a) (k b)) :
    s.Repeats inStep n (k <$> x) (k <$> y) r := by
  rw [map_eq_pure_bind, map_eq_pure_bind]
  exact hx.bind fun n' a b _ hab => pure fun n'' hn => hr n' n'' _ _ hn (hk n' a b hab)

/-- A value that is computed from what both runs agree on. -/
theorem map_atom {k : α → Value} (hx : s.Repeats inStep n x y Agree)
    (hk : ∀ a, (k a).isAtom = true) : s.Repeats inStep n (k <$> x) (k <$> y) s.Same := by
  refine hx.map k lasting_same ?_
  rintro _ _ b rfl
  exact same_of_isAtom (hk b)

theorem ite {c : Prop} [Decidable c] {x' y' : Action α} (hx : s.Repeats inStep n x y p)
    (hy : s.Repeats inStep n x' y' p) :
    s.Repeats inStep n (if c then x else x') (if c then y else y') p := by
  split
  · exact hx
  · exact hy

theorem ofExcept {a b : Except Fault α} (h : ∀ n', n ≤ n' → ExceptRel (p n') a b) :
    s.Repeats inStep n (Action.ofExcept a) (Action.ofExcept b) p := by
  intro w u hw hsize
  have hr := h _ hsize
  cases hr with
  | ok hab => exact .value hw le_rfl hab
  | error e => exact .fault hw

/-- A result that both runs agree on. -/
theorem ofExcept_agree {a b : Except Fault α} (h : b = a) :
    s.Repeats inStep n (Action.ofExcept a) (Action.ofExcept b) Agree :=
  ofExcept fun _ _ => (ExceptRel.of_eq h.symm).mono fun _ _ => Eq.symm

/-- A result that both runs agree on and that refers to no cell. -/
theorem ofExcept_atom {a b : Except Fault Value} (h : b = a) (ha : Value.AtomIn a) :
    s.Repeats inStep n (Action.ofExcept a) (Action.ofExcept b) s.Same := by
  subst h
  cases b with
  | ok v => exact pure_same (same_of_isAtom (ha v rfl))
  | error e => exact fail e

theorem heap_bind {f f' : Heap → Action β}
    (hf : ∀ g h, s.memory.Twins s.distance g h → n ≤ g.cells.size →
      s.Repeats inStep g.cells.size (f g) (f' h) r) :
    s.Repeats inStep n (Action.heap >>= f) (Action.heap >>= f') r := by
  intro w u hw hsize
  rw [Action.bind_value (Action.heap_apply w), Action.bind_value (Action.heap_apply u)]
  exact hf w.heap u.heap hw.heaps hsize w u hw le_rfl

/-- What is done with the names does not depend on whether the last request was claimed. -/
theorem context_bind {f : Context → Action β}
    (hf : ∀ b b', s.Repeats inStep n (f (s.context.flagged b)) (f (s.context.flagged b')) r) :
    s.Repeats inStep n (Action.context >>= f) (Action.context >>= f) r := by
  intro w u hw hsize
  rw [Action.bind_value (Action.context_apply w), Action.bind_value (Action.context_apply u),
    hw.first, hw.second]
  exact hf _ _ w u hw hsize

theorem isResolved : s.Repeats true n Action.isResolved Action.isResolved Agree :=
  fun _ _ hw _ => .value hw le_rfl (hw.flags rfl)

theorem setResolved (b : Bool) :
    s.Repeats inStep n (Action.setResolved b) (Action.setResolved b) Agree :=
  fun _ _ hw _ => .value (hw.flagged b).loose le_rfl rfl

/-- Both runs are in step once they note whether a request is claimed. -/
theorem setResolved_bind (b : Bool) {f f' : Unit → Action β} (h : s.Repeats true n (f ()) (f' ()) r) :
    s.Repeats inStep n (Action.setResolved b >>= f) (Action.setResolved b >>= f') r :=
  fun _ _ hw hsize => (h _ _ (hw.flagged b) hsize).loose

theorem claim (hl : s.context.listeners = []) (base property base' property' : Value) :
    s.Repeats inStep n (Action.claim base property) (Action.claim base' property') Agree := by
  intro w u hw _
  have hpermits {k : World} (hk : k.context.listeners = s.context.listeners) (b p : Value) :
      k.Permits b p := World.permits_of_no_listeners (hk.trans hl) b p
  rw [Action.claim_permitted (hpermits hw.listeners.1 _ _),
    Action.claim_permitted (hpermits hw.listeners.2 _ _)]
  exact .value ((hw.flagged true).loose.logged _ _) le_rfl rfl

theorem notify (hl : s.context.listeners = []) (e e' : Event) :
    s.Repeats inStep n (Action.notify e) (Action.notify e') Agree := by
  intro w u hw _
  simp only [Action.notify, hw.listeners.1, hw.listeners.2, hl]
  exact .value (hw.logged e e') le_rfl rfl

theorem bracketed (hl : s.context.listeners = []) (text : String) (hp : Lasting p)
    (hx : s.Repeats inStep n x y p) :
    s.Repeats inStep n (bracketed text x) (bracketed text y) p :=
  (notify hl _ _).bind fun _ _ _ hn _ => (hx.later hn).bind fun m _ _ _ hab =>
    (notify hl _ _).bind fun _ _ _ hn' _ => pure fun _ hn'' => hp m _ _ _ (hn'.trans hn'') hab

theorem build {f f' : Heap → Value × Heap}
    (hf : ∀ g h, s.memory.Twins s.distance g h → n ≤ g.cells.size → s.Made g (f g) (f' h)) :
    s.Repeats inStep n (Action.build f) (Action.build f') s.Same := by
  intro w u hw hsize
  have hmade := hf w.heap u.heap hw.heaps hsize
  exact .value (hw.written hmade.twins) hmade.grown hmade.same

/-! ## The standard chain -/

/-- A known value. -/
theorem pure_known (hv : s.memory.Knows v) :
    s.Repeats inStep n (Pure.pure v) (Pure.pure v) s.Same :=
  fun _ _ hw _ => .value hw le_rfl ((same_of_known hv).mono hw.heaps.grown)

theorem askAll {answer : Answerer} {q q' : Request α} {rs : List Resolver} (hp : Lasting p)
    (hq : ∀ n', n ≤ n' → p n' q.neutral q'.neutral)
    (hrs : ∀ k ∈ rs, s.Repeats true n (k.ask answer q) (k.ask answer q') p) :
    s.Repeats true n (askAll answer rs q) (askAll answer rs q') p := by
  induction rs with
  | nil =>
    rw [ExprLang.askAll, ExprLang.askAll]
    exact pure hq
  | cons k rs ih =>
    obtain ⟨hk, hrest⟩ := List.forall_mem_cons.mp hrs
    rw [ExprLang.askAll, ExprLang.askAll]
    refine hk.bind fun m a b hm hab => isResolved.bind ?_
    rintro m' _ claimed hm' rfl
    refine ite (pure fun n' hn => hp m n' a b (hm'.trans hn) hab) ?_
    exact (ih hrest).later (hm.trans hm')

/-- Asking the chain brings both runs into step. -/
theorem askChain_bind {answer : Answerer} {q q' : Request α} {f f' : α → Action β} {ro : Bool}
    (hl : s.context.layout = .standard [] ro)
    (h : s.Repeats true n (ExprLang.askAll answer (Layout.standard [] ro).resolvers q >>= f)
      (ExprLang.askAll answer (Layout.standard [] ro).resolvers q' >>= f') r) :
    s.Repeats inStep n (askChain answer q >>= f) (askChain answer q' >>= f') r := by
  rw [askChain, askChain, bind_assoc, bind_assoc]
  intro w u hw hsize
  rw [Action.bind_value (Action.context_apply w), Action.bind_value (Action.context_apply u),
    hw.layout.1, hw.layout.2, hl, Resolver.ask, Resolver.ask, bind_assoc, bind_assoc]
  exact setResolved_bind false h w u hw hsize

theorem convert {host : Host} {ro : Bool} (hl : s.context.layout = .standard [] ro)
    (hv : s.Same n v w) (t : TypeRef) :
    s.Repeats inStep n (Conversion.convert host v t) (Conversion.convert host w t) s.Same := by
  intro k u hk hsize
  rw [Conversion.convert_standard (hk.layout.1.trans hl),
    Conversion.convert_standard (hk.layout.2.trans hl), hv.eq]
  rcases (hk.heaps.resembles v).toType t with ⟨e, hfirst, hsecond⟩ | ⟨a, ha, hfirst, hsecond⟩ |
      ⟨hfirst, hsecond⟩ <;> rw [hfirst, hsecond]
  · exact .fault hk
  · exact .value hk le_rfl (same_of_isAtom ha)
  · exact .value hk le_rfl ⟨hv.below.mono hsize, rfl⟩

end Repeats

end Rerun

end ExprLang
