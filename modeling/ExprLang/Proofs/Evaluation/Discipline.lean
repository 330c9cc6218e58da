import ExprLang.Proofs.Evaluation.Sight

/-! What holds of every evaluation because it holds of the few parts that computations are made of. The
evaluator sees the scopes of arguments only in the values of names and in all arguments together. -/

namespace ExprLang

/-! ## What is seen of a context -/

/-- Two contexts that look the same: they differ in the scopes at most, and names have the same
arguments there. -/
structure Context.Looks (c d : Context) : Prop where
  same : { d with scopes := c.scopes } = c
  argument? (name : String) : d.argument? name = c.argument? name
  arguments : d.arguments = c.arguments

theorem Context.Looks.bound {c d : Context} (h : c.Looks d) : d.bound = c.bound := by
  have hc := congrArg Context.bound h.same
  exact hc

theorem Context.Looks.isArgument {c d : Context} (h : c.Looks d) (name : String) :
    d.isArgument name = c.isArgument name := by
  rw [d.isArgument_eq, c.isArgument_eq, h.argument?]

/-! ## Disciplines -/

/-- A property of computations that holds of the simple parts and of sequences of such. A chain of a
layout in `L` asks only resolvers of the host that have the property, and what is seen of a context is
as in every other one that looks the same. -/
structure Sequenced (host : Host) (L : Layout → Prop) (P : ∀ {α : Type}, Action α → Prop) :
    Prop where
  pure {α : Type} (a : α) : P (pure a : Action α)
  fail {α : Type} (e : Fault) : P (Action.fail e : Action α)
  exhausted {α : Type} : P (Action.exhausted : Action α)
  bind {α β : Type} {x : Action α} {f : α → Action β} : P x → (∀ a, P (f a)) → P (x >>= f)
  heap : P Action.heap
  isResolved : P Action.isResolved
  context {α : Type} {f : Context → Action α} :
    (∀ c d, c.Looks d → f d = f c) → (∀ c, L c.layout → P (f c)) → P (Action.context >>= f)
  setResolved (b : Bool) : P (Action.setResolved b)
  setCells (h : Heap) : P (Action.setCells h)
  setStore (i : Nat) (f : Bindings Value → Bindings Value) :
    P (Action.modifyContext fun c => c.setStore i (f (c.store i)))
  resolvers (l : Layout) : L l →
    allAdmit (fun i => ∀ {α : Type} (q : Request α), P (host.custom i q)) l.resolvers

/-- The property holds of claims and conversions, and a scope or the events of an expression may be put
around a computation. Nothing is said of computations whose faults are caught. -/
structure Composition (host : Host) (L : Layout → Prop) (P : ∀ {α : Type}, Action α → Prop) : Prop
    extends Sequenced host L P where
  claim (base property : Value) : P (Action.claim base property)
  bracketed {α : Type} {x : Action α} (text : String) : P x → P (bracketed text x)
  withScope {α : Type} {x : Action α} (s : Bindings Value) : P x → P (withScope s x)
  convert (v : Value) (t : TypeRef) : P (Conversion.convert host v t)

/-- The property holds of the tasks that a handler carries out. -/
structure Composed (host : Host) (handle : Handler) (L : Layout → Prop)
    (P : ∀ {α : Type}, Action α → Prop) : Prop extends Composition host L P where
  handler {α : Type} (t : Task α) : P (handle t)

/-- The property holds of the code of all methods too. -/
structure Programmed (host : Host) (handle : Handler) (L : Layout → Prop)
    (P : ∀ {α : Type}, Action α → Prop) : Prop extends Composed host handle L P where
  run {m : Method} (self : Value) (args : List Value) :
    host.classes.Declares m → P (m.run host handle self args)

/-- A property of computations that holds of the parts and of what is put together of such, also where
faults are caught. -/
structure Discipline (host : Host) (L : Layout → Prop) (P : ∀ {α : Type}, Action α → Prop) :
    Prop where
  pure {α : Type} (a : α) : P (pure a : Action α)
  fail {α : Type} (e : Fault) : P (Action.fail e : Action α)
  exhausted {α : Type} : P (Action.exhausted : Action α)
  bind {α β : Type} {x : Action α} {f : α → Action β} : P x → (∀ a, P (f a)) → P (x >>= f)
  attempt {α : Type} {x : Action α} : P x → P x.attempt
  heap : P Action.heap
  isResolved : P Action.isResolved
  context {α : Type} {f : Context → Action α} :
    (∀ c d, c.Looks d → f d = f c) → (∀ c, L c.layout → P (f c)) → P (Action.context >>= f)
  setResolved (b : Bool) : P (Action.setResolved b)
  setCells (h : Heap) : P (Action.setCells h)
  setStore (i : Nat) (f : Bindings Value → Bindings Value) :
    P (Action.modifyContext fun c => c.setStore i (f (c.store i)))
  notify (e : Event) : P (Action.notify e)
  withScope {α : Type} {x : Action α} (s : Bindings Value) : P x → P (withScope s x)
  resolvers (l : Layout) : L l →
    allAdmit (fun i => ∀ {α : Type} (q : Request α), P (host.custom i q)) l.resolvers

/-- A discipline that a handler of tasks keeps to. -/
structure Disciplined (host : Host) (handle : Handler) (L : Layout → Prop)
    (P : ∀ {α : Type}, Action α → Prop) : Prop extends Discipline host L P where
  handler {α : Type} (t : Task α) : P (handle t)

variable {α β : Type} {host : Host} {handle : Handler} {L : Layout → Prop}
  {P : ∀ {α : Type}, Action α → Prop}

theorem Context.Unscoped.looks {f : Context → Action α} (hf : Context.Unscoped f) {c d : Context}
    (h : c.Looks d) : f d = f c :=
  (hf d c.scopes).symm.trans (congrArg f h.same)

namespace Sequenced

variable (hd : Sequenced host L P)

omit hd in
theorem ite (_ : Sequenced host L P) {c : Prop} [Decidable c] {x y : Action α} (hx : P x)
    (hy : P y) : P (if c then x else y) := by
  split
  · exact hx
  · exact hy

include hd

/-- A property relates a computation that has it with all others. -/
theorem lockstep : Lockstep.Sequenced host L fun x _ => P x where
  pure := hd.pure
  fail := hd.fail
  bind := hd.bind
  heap := hd.heap
  isResolved := hd.isResolved
  context hf _ h := hd.context (fun _ _ hcd => hf.looks hcd) h
  setResolved := hd.setResolved
  setCells := hd.setCells
  setStore := hd.setStore
  resolvers := hd.resolvers

theorem ofExcept (r : Except Fault α) : P (Action.ofExcept r) := hd.lockstep.ofExcept r

end Sequenced

/-! ## Expressions -/

theorem Composition.lockstep (hd : Composition host L P) :
    Lockstep.Composition host L fun x _ => P x where
  toSequenced := hd.toSequenced.lockstep
  claim := hd.claim
  bracketed := hd.bracketed
  withScope := hd.withScope
  convert := hd.convert

namespace Composed

variable (hd : Composed host handle L P)
include hd

theorem lockstep : Lockstep.Composed host handle handle L fun x _ => P x :=
  ⟨hd.toComposition.lockstep, hd.handler⟩

theorem closure (f : Closure) (args : List Value) : P (f.invoke handle args) :=
  hd.lockstep.closure f args

theorem read (e : ValueExpr) : P (e.read host handle) := hd.lockstep.read e

theorem write (e : ValueExpr) (v : Value) : P (e.write handle v) := hd.lockstep.write e v

theorem isReadOnly (e : ValueExpr) : P (e.isReadOnly handle) := hd.lockstep.isReadOnly e

theorem type? (e : ValueExpr) : P (e.type? handle) := hd.lockstep.type? e

end Composed

theorem Programmed.lockstep (hd : Programmed host handle L P) :
    Lockstep.Programmed host handle handle L fun x _ => P x :=
  ⟨hd.toComposed.lockstep, hd.run⟩

/-! ## Computations that catch faults -/

namespace Discipline

variable (hd : Discipline host L P)
include hd

theorem sequenced : Sequenced host L P :=
  { hd with }

theorem lockstep : Lockstep.Discipline host L fun x _ => P x where
  toSequenced := hd.sequenced.lockstep
  attempt := hd.attempt
  notify := hd.notify
  withScope := hd.withScope

theorem composition : Composition host L P where
  toSequenced := hd.sequenced
  claim := hd.lockstep.claim
  bracketed {_ x} text hx := hd.lockstep.bracketed (y := x) text hx
  withScope := hd.withScope
  convert := hd.lockstep.convert

end Discipline

namespace Disciplined

variable (hd : Disciplined host handle L P)
include hd

theorem lockstep : Lockstep.Disciplined host handle handle L fun x _ => P x :=
  ⟨hd.toDiscipline.lockstep, hd.handler⟩

theorem programmed : Programmed host handle L P :=
  ⟨⟨hd.composition, hd.handler⟩, fun self args _ => hd.lockstep.method_run _ self args⟩

end Disciplined

/-! ## Steps and runs

A step of a task keeps to a discipline where the tasks inside it do, and so does every run. -/

theorem Resolution.require_obeys (hd : Programmed host handle L P) (base property : Value)
    (q : Request α) : P (require host handle base property q) :=
  require_lockstep hd.lockstep base property q

/-- What is seen of the arguments is the same in contexts that look the same. -/
theorem Context.Looks.sight {c d : Context} (h : c.Looks d) (s : Sight) : s.of d = s.of c := by
  cases s with
  | nothing => rfl
  | argument name => simp only [Sight.of, h.argument?]
  | everything => exact h.arguments

namespace Evaluation

section Step
variable (hd : Programmed host handle L P)
include hd

theorem branch_obeys (b : Bound) (condition yes no : Node) :
    P (branch handle b condition yes no) :=
  branch_lockstep hd.lockstep b condition yes no

theorem selected_obeys (b : Bound) (s : Selector) : P (selected handle b s) :=
  selected_lockstep hd.lockstep b s

theorem target_obeys (b : Bound) (base : Node) (steps : List Step) :
    P (target host handle b base steps) :=
  target_lockstep hd.lockstep b base steps

theorem step_obeys (t : Task α) : P (step host handle t) := by
  obtain ⟨f, _, hf, _, hseen⟩ := step_related hd.lockstep t
  rw [hf]
  exact hd.context (fun c d h => by rw [h.sight]) fun c _ => hseen _

end Step

/-- Every run has the property that its parts have, where the code of methods has it as soon as the
handler of its tasks does. -/
theorem run_composed (hd : Composition host L P)
    (hcode : ∀ {handle : Handler}, Composed host handle L P → Programmed host handle L P)
    (depth : Nat) : ∀ {α : Type} (t : Task α), P (run host depth t) := by
  induction depth with
  | zero => exact fun _ => hd.exhausted
  | succ depth ih => exact fun t => step_obeys (hcode ⟨hd, ih⟩) t

/-- Every run keeps to the discipline of its parts. -/
theorem run_obeys (hd : Discipline host L P) (depth : Nat) :
    ∀ {α : Type} (t : Task α), P (run host depth t) :=
  run_composed hd.composition
    (fun hc => (Disciplined.mk hd hc.handler).programmed) depth

end Evaluation

end ExprLang
