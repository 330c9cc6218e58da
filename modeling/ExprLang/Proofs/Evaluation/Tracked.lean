import ExprLang.Evaluation.Step
import ExprLang.Proofs.Declared
import ExprLang.Proofs.Evaluation.Frame
import ExprLang.Proofs.Heap.Change
import ExprLang.Proofs.Resolution.Standard

/-! Computations whose writes to cells are known one by one. -/

namespace ExprLang

variable {α β : Type}

/-! ## What is known -/

/-- All that the names of the context stand for is grounded. -/
structure Context.Grounded (k : Kinds) (c : Context) : Prop where
  scopes : ∀ s ∈ c.scopes, Bindings.Grounded k s
  stores (i : Nat) : (c.store i).Grounded k
  vars : ∀ e ∈ c.vars, e.2.Grounded k

namespace Context.Grounded
variable {k k' : Kinds} {c : Context} (h : c.Grounded k)
include h

theorem mono (hk : k <+: k') : c.Grounded k' where
  scopes s hs := (h.scopes s hs).mono hk
  stores i := (h.stores i).mono hk
  vars e he := (h.vars e he).mono hk

theorem argument? {name : String} {v : Value} (hv : c.argument? name = some v) : v.Grounded k := by
  obtain ⟨s, hs, hfind⟩ := List.exists_of_findSome?_eq_some hv
  exact h.scopes s hs (name, v) (Bindings.mem_of_find? hfind)

theorem arguments : Bindings.Grounded k c.arguments := by
  have hscopes := h.scopes
  unfold Context.arguments
  generalize c.scopes = scopes at hscopes
  induction scopes with
  | nil => exact nofun
  | cons s outer ih =>
    obtain ⟨hs, houter⟩ := List.forall_mem_cons.mp hscopes
    intro e he
    rcases Bindings.mem_of_mem_override he with he | he
    · exact ih houter e he
    · exact hs e he

theorem bean? {name : String} {v : Value} (hv : c.bean? name = some v) : v.Grounded k := by
  obtain ⟨b, hb, hfind⟩ := Option.bind_eq_some_iff.mp hv
  obtain ⟨i, -, rfl⟩ := Option.map_eq_some_iff.mp hb
  exact h.stores i (name, v) (Bindings.mem_of_find? hfind)

theorem bound : c.bound.Grounded k := Bound.grounded_mk h.vars

theorem setStore (i : Nat) {b : Bindings Value} (hb : b.Grounded k) : (c.setStore i b).Grounded k := by
  refine ⟨h.scopes, fun j => ?_, h.vars⟩
  have hj := h.stores j
  unfold Context.store Context.setStore at *
  rw [Array.getD_eq_getD_getElem?] at hj ⊢
  rw [Array.getElem?_setIfInBounds]
  split
  · split
    · exact hb
    · exact nofun
  · exact hj

end Context.Grounded

theorem Bindings.Grounded.insert {k : Kinds} {b : Bindings Value} (hb : b.Grounded k) (name : String)
    {v : Value} (hv : v.Grounded k) : (b.insert name v).Grounded k := by
  intro e he
  rcases mem_of_mem_insert he with rfl | he
  · exact hv
  · exact hb e he

namespace Memory

/-- The value is grounded in these cells. -/
abbrev Knows (m : Memory) (v : Value) : Prop := v.Grounded m.kinds

abbrev KnowsAll (m : Memory) (vs : List Value) : Prop := ∀ v ∈ vs, m.Knows v

/-- Where the computation ends in a value, that is grounded. -/
abbrev KnowsResult {ε : Type} (m : Memory) (r : Except ε Value) : Prop := ResultIn m.Knows r

/-- What was found, if anything, is grounded. -/
abbrev KnowsFound (m : Memory) (found : Option Value) : Prop := ∀ v, found = some v → m.Knows v

theorem knowsFound_some {m : Memory} {v : Value} (hv : m.Knows v) : m.KnowsFound (some v) := by
  rintro _ ⟨⟩
  exact hv

/-- The value of a key, or null. -/
theorem knows_lookup {m : Memory} {es : List (Value × Value)}
    (hes : ∀ e ∈ es, m.Knows e.1 ∧ m.Knows e.2) (h : Heap) (key : Value) :
    m.Knows ((h.lookup? es key).getD .null) := by
  cases hv : h.lookup? es key with
  | none => exact Value.grounded_null
  | some v =>
    obtain ⟨e, he, rfl⟩ := h.mem_of_lookup? hv
    exact (hes e he).2

/-- Any result. -/
abbrev Any (_ : Memory) (_ : α) : Prop := True

end Memory

/-! ## Computations -/

/-- A host with its standard chain, and the kinds of the cells that code of the host leaves alone. -/
structure Regime where
  host : Host
  readOnlyBeans : Bool
  guarded : CellKind → Bool

namespace Regime

variable (R : Regime)

/-- Some writes lead from the first cells to the second ones. -/
abbrev Reaches (m m' : Memory) : Prop := m.Reaches R.guarded m'

/-- The world has these cells and the standard chain, and knows no others. -/
structure Standing (m : Memory) (w : World) : Prop where
  heap : w.heap = m.heap
  layout : w.context.layout = .standard [] R.readOnlyBeans
  context : w.context.Grounded m.kinds
  fields (c : ClassId) : ∀ f ∈ (R.host.classes.members c).fields, m.Knows f.value

/-- However a computation ends, some writes have led there. -/
def Ends (m : Memory) (Q : Memory → α → Prop) : Outcome α → Prop
  | .value a u => ∃ m', R.Reaches m m' ∧ R.Standing m' u ∧ Q m' a
  | .fault _ u => ∃ m', R.Reaches m m' ∧ R.Standing m' u
  | .exhausted => True

/-- From these cells on, the computation only writes to cells as known, and its values are such. -/
def Tracks (m : Memory) (x : Action α) (Q : Memory → α → Prop) : Prop :=
  ∀ m' w, R.Reaches m m' → R.Standing m' w → R.Ends m' Q (x w)

/-- No write changes what holds of a result. -/
def Lasting (P : Memory → α → Prop) : Prop := ∀ a m m', R.Reaches m m' → P m a → P m' a

variable {R}

theorem lasting_any : R.Lasting (Memory.Any : Memory → α → Prop) := fun _ _ _ _ _ => trivial

theorem lasting_knows : R.Lasting Memory.Knows := fun _ _ _ hm hv => hv.mono hm.kinds

variable {m m' : Memory} {x : Action α} {f : α → Action β} {P : Memory → α → Prop}
  {Q : Memory → β → Prop} {w : World}

theorem Ends.trans {o : Outcome β} (hm : R.Reaches m m') (h : R.Ends m' Q o) : R.Ends m Q o := by
  cases o with
  | value a u =>
    obtain ⟨m₁, h₁, hu, hq⟩ := h
    exact ⟨m₁, hm.trans h₁, hu, hq⟩
  | fault e u =>
    obtain ⟨m₁, h₁, hu⟩ := h
    exact ⟨m₁, hm.trans h₁, hu⟩
  | exhausted => trivial

theorem Ends.bind (h : R.Ends m P (x w))
    (hf : ∀ a m' u, R.Reaches m m' → R.Standing m' u → P m' a → R.Ends m' Q (f a u)) :
    R.Ends m Q ((x >>= f) w) := by
  cases hx : x w with
  | value a u =>
    rw [hx] at h
    obtain ⟨m₁, h₁, hu, hp⟩ := h
    rw [Action.bind_value hx]
    exact (hf a m₁ u h₁ hu hp).trans h₁
  | fault e u =>
    rw [hx] at h
    rw [Action.bind_fault hx]
    exact h
  | exhausted =>
    rw [Action.bind_exhausted hx]
    trivial

theorem Standing.ends (hw : R.Standing m w) {a : α} (hp : P m a) : R.Ends m P (.value a w) :=
  ⟨m, .refl, hw, hp⟩

theorem Standing.fails (hw : R.Standing m w) (e : Fault) : R.Ends m P (.fault e w) :=
  ⟨m, .refl, hw⟩

/-- The world once cells are written. -/
theorem Standing.written (hw : R.Standing m w) {h : Heap} (hm : R.Reaches m m')
    (hh : m'.heap = { m.heap with cells := h.cells }) :
    R.Standing m' { w with heap := { w.heap with cells := h.cells } } where
  heap := by rw [hh, ← hw.heap]
  layout := hw.layout
  context := hw.context.mono hm.kinds
  fields c f hf := (hw.fields c f hf).mono hm.kinds

theorem Standing.setCells (hw : R.Standing m w) {h : Heap} (hm : R.Reaches m m')
    (hh : m'.heap = { m.heap with cells := h.cells }) :
    R.Ends m Memory.Any (Action.setCells h w) :=
  ⟨m', hm, hw.written hm hh, trivial⟩

/-- Cells for a new value. -/
theorem Standing.build (hw : R.Standing m w) {f : Heap → Value × Heap}
    (h : ∃ m', m.Change R.guarded m' ∧ m'.heap = (f m.heap).2 ∧ m'.Knows (f m.heap).1)
    (hl : (f m.heap).2.lineage = m.heap.lineage) :
    R.Ends m Memory.Knows (Action.build f w) := by
  obtain ⟨m', hc, hh, hv⟩ := h
  have hr : R.Reaches m m' := .single hc
  have hheap : m'.heap = { m.heap with cells := (f w.heap).2.cells } := by
    rw [hh, hw.heap]
    exact congrArg (Heap.mk · _) hl
  refine ⟨m', hr, hw.written hr hheap, ?_⟩
  rw [hw.heap]
  exact hv

namespace Tracks

theorem later (h : R.Tracks m x P) (hm : R.Reaches m m') : R.Tracks m' x P :=
  fun m₁ w h₁ hw => h m₁ w (hm.trans h₁) hw

theorem pure {a : α} (h : ∀ m', R.Reaches m m' → P m' a) : R.Tracks m (pure a) P :=
  fun m' _ hm hw => hw.ends (h m' hm)

theorem pure_any (a : α) : R.Tracks m (Pure.pure a) Memory.Any := pure fun _ _ => trivial

theorem pure_value {v : Value} (h : m.Knows v) : R.Tracks m (Pure.pure v) Memory.Knows :=
  pure fun _ hm => h.mono hm.kinds

theorem fail (e : Fault) : R.Tracks m (Action.fail e) P := fun _ _ _ hw => hw.fails e

theorem bind (hx : R.Tracks m x P)
    (hf : ∀ a m', R.Reaches m m' → P m' a → R.Tracks m' (f a) Q) : R.Tracks m (x >>= f) Q :=
  fun m₁ w h₁ hw => (hx m₁ w h₁ hw).bind fun a m₂ u h₂ hu hp =>
    hf a m₂ (h₁.trans h₂) hp m₂ u .refl hu

theorem imp {P' : Memory → α → Prop} (h : R.Tracks m x P)
    (hp : ∀ m' a, R.Reaches m m' → P m' a → P' m' a) : R.Tracks m x P' := by
  intro m₁ w h₁ hw
  have ho := h m₁ w h₁ hw
  revert ho
  cases x w with
  | value a u => exact fun ⟨m₂, h₂, hu, ha⟩ => ⟨m₂, h₂, hu, hp m₂ a (h₁.trans h₂) ha⟩
  | fault e u => exact id
  | exhausted => exact id

theorem map (k : α → β) (hx : R.Tracks m x P)
    (hk : ∀ a m', R.Reaches m m' → P m' a → Q m' (k a)) : R.Tracks m (k <$> x) Q := by
  rw [map_eq_pure_bind]
  exact fun m₁ w h₁ hw => (hx m₁ w h₁ hw).bind fun a m₂ u h₂ hu hp =>
    hu.ends (hk a m₂ (h₁.trans h₂) hp)

theorem ite {c : Prop} [Decidable c] {y : Action α} (hx : R.Tracks m x P) (hy : R.Tracks m y P) :
    R.Tracks m (if c then x else y) P := by
  split
  · exact hx
  · exact hy

theorem ofExcept {r : Except Fault α} (h : ∀ m', R.Reaches m m' → ResultIn (P m') r) :
    R.Tracks m (Action.ofExcept r) P := by
  cases r with
  | ok a => exact pure fun m' hm => h m' hm a rfl
  | error e => exact fail e

theorem ofExcept_any (r : Except Fault α) : R.Tracks m (Action.ofExcept r) Memory.Any :=
  ofExcept fun _ _ _ _ => trivial

theorem ofExcept_atom {r : Except Fault Value} (h : Value.AtomIn r) :
    R.Tracks m (Action.ofExcept r) Memory.Knows :=
  ofExcept fun _ _ => h.imp fun _ => Value.grounded_of_isAtom

theorem heap_bind {f : Heap → Action β}
    (hf : ∀ m', R.Reaches m m' → R.Tracks m' (f m'.heap) Q) : R.Tracks m (Action.heap >>= f) Q := by
  intro m₁ w h₁ hw
  rw [Action.bind_value (Action.heap_apply w), hw.heap]
  exact hf m₁ h₁ m₁ w .refl hw

theorem context_bind {f : Context → Action β}
    (hf : ∀ m' c, R.Reaches m m' → c.Grounded m'.kinds → R.Tracks m' (f c) Q) :
    R.Tracks m (Action.context >>= f) Q := by
  intro m₁ w h₁ hw
  rw [Action.bind_value (Action.context_apply w)]
  exact hf m₁ w.context h₁ hw.context m₁ w .refl hw

theorem isResolved : R.Tracks m Action.isResolved Memory.Any :=
  fun _ _ _ hw => hw.ends trivial

theorem setResolved (b : Bool) : R.Tracks m (Action.setResolved b) Memory.Any :=
  fun m₁ _ _ hw => ⟨m₁, .refl, ⟨hw.heap, hw.layout,
    ⟨hw.context.scopes, hw.context.stores, hw.context.vars⟩, hw.fields⟩, trivial⟩

theorem notify (e : Event) : R.Tracks m (Action.notify e) Memory.Any := by
  intro m₁ w h₁ hw
  have hlog : R.Standing m₁ { w with log := e :: w.log } :=
    ⟨hw.heap, hw.layout, hw.context, hw.fields⟩
  simp only [Action.notify]
  split
  · exact hlog.fails _
  · exact hlog.ends trivial

theorem claim (base property : Value) : R.Tracks m (Action.claim base property) Memory.Any :=
  (setResolved true).bind fun _ _ _ _ => heap_bind fun _ _ => notify _

theorem setStore (i : Nat) (name : String) {v : Value} (hv : m.Knows v) :
    R.Tracks m (Action.modifyContext fun c => c.setStore i ((c.store i).insert name v))
      Memory.Any := by
  intro m₁ w h₁ hw
  have hb := (hw.context.stores i).insert name (hv.mono h₁.kinds)
  exact ⟨m₁, .refl, ⟨hw.heap, hw.layout, hw.context.setStore i hb, hw.fields⟩, trivial⟩

theorem attempt (hx : R.Tracks m x P) :
    R.Tracks m (Action.attempt x) fun m r => ResultIn (P m) r := by
  intro m₁ w h₁ hw
  have ho := hx m₁ w h₁ hw
  unfold Action.attempt
  revert ho
  cases x w with
  | value a u =>
    rintro ⟨m₂, h₂, hu, ha⟩
    exact ⟨m₂, h₂, hu, by rintro _ ⟨⟩; exact ha⟩
  | fault e u =>
    rintro ⟨m₂, h₂, hu⟩
    exact ⟨m₂, h₂, hu, nofun⟩
  | exhausted => exact id

theorem withScope {s : Bindings Value} (hs : s.Grounded m.kinds) (hx : R.Tracks m x P) :
    R.Tracks m (withScope s x) P := by
  intro m₁ w h₁ hw
  have hpushed : R.Standing m₁ (w.pushed s) :=
    ⟨hw.heap, hw.layout, ⟨List.forall_mem_cons.mpr ⟨hs.mono h₁.kinds, hw.context.scopes⟩,
      hw.context.stores, hw.context.vars⟩, hw.fields⟩
  have popped {m₂ : Memory} {u : World} (hu : R.Standing m₂ u) : R.Standing m₂ u.popped :=
    ⟨hu.heap, hu.layout, ⟨fun t ht => hu.context.scopes t (List.mem_of_mem_tail ht),
      hu.context.stores, hu.context.vars⟩, hu.fields⟩
  have ho := hx m₁ _ h₁ hpushed
  rw [withScope_apply]
  revert ho
  cases x (w.pushed s) with
  | value a u => exact fun ⟨m₂, h₂, hu, ha⟩ => ⟨m₂, h₂, popped hu, ha⟩
  | fault e u => exact fun ⟨m₂, h₂, hu⟩ => ⟨m₂, h₂, popped hu⟩
  | exhausted => exact id

theorem bracketed (text : String) (hx : R.Tracks m x P)
    (hp : R.Lasting P) : R.Tracks m (bracketed text x) P :=
  (notify _).bind fun _ _ h₁ _ => (hx.later h₁).bind fun a m₂ _ ha =>
    (notify _).bind fun _ _ h₃ _ => pure fun m₄ h₄ => hp a m₂ m₄ (h₃.trans h₄) ha

/-! ## The standard chain -/

theorem askAll {answer : Answerer} {q : Request α} {rs : List Resolver}
    (hq : ∀ m', R.Reaches m m' → P m' q.neutral)
    (hrs : ∀ r ∈ rs, R.Tracks m (r.ask answer q) P)
    (hp : R.Lasting P) : R.Tracks m (askAll answer rs q) P := by
  induction rs with
  | nil =>
    rw [ExprLang.askAll]
    exact pure hq
  | cons r rs ih =>
    obtain ⟨hr, hrest⟩ := List.forall_mem_cons.mp hrs
    rw [ExprLang.askAll]
    refine hr.bind fun a m₁ h₁ ha => isResolved.bind fun _ m₂ h₂ _ => ite ?_ ?_
    · exact pure fun m₃ h₃ => hp a m₁ m₃ (h₂.trans h₃) ha
    · exact (ih hrest).later (h₁.trans h₂)

/-- What the standard chain answers is what its resolvers do. -/
theorem chain {answer : Answerer} {q : Request α}
    (h : ∀ m', R.Reaches m m' → R.Tracks m'
      (ExprLang.askAll answer (Layout.standard [] R.readOnlyBeans).resolvers q) P) :
    R.Tracks m (askChain answer q) P := by
  intro m₁ w h₁ hw
  rw [askChain_apply, hw.layout]
  have hflagged : R.Standing m₁ (w.flagged false) :=
    ⟨hw.heap, hw.layout, ⟨hw.context.scopes, hw.context.stores, hw.context.vars⟩, hw.fields⟩
  exact h m₁ h₁ m₁ _ .refl hflagged

end Tracks

end Regime

end ExprLang
