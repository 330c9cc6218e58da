import ExprLang.Evaluation.Step
import ExprLang.Proofs.Action
import ExprLang.Proofs.Declared

/-! Computations side by side. What relates the few parts that computations are made of, each with itself,
relates what two handlers of tasks do, as soon as it relates how they carry out each task: both go the
same way, with the same values. -/

namespace ExprLang

/-! ## Resolvers of the host -/

mutual

/-- A resolver asks only those of the host that are admitted. -/
def Resolver.Admits (p : Nat → Prop) : Resolver → Prop
  | .custom i => p i
  | .group members => allAdmit p members
  | .names _ | .statics | .maps _ | .lists _ | .arrays _ | .records | .beans _ => True

def allAdmit (p : Nat → Prop) : List Resolver → Prop
  | [] => True
  | r :: rs => r.Admits p ∧ allAdmit p rs

end

mutual

theorem Resolver.admits_of_forall {p : Nat → Prop} (h : ∀ i, p i) : ∀ r : Resolver, r.Admits p
  | .custom i => by
    rw [Resolver.Admits]
    exact h i
  | .group members => by
    rw [Resolver.Admits]
    exact allAdmit_of_forall h members
  | .names _ | .statics | .maps _ | .lists _ | .arrays _ | .records | .beans _ => by
    rw [Resolver.Admits]
    trivial

theorem allAdmit_of_forall {p : Nat → Prop} (h : ∀ i, p i) : ∀ rs : List Resolver, allAdmit p rs
  | [] => by
    rw [allAdmit]
    trivial
  | r :: rs => by
    rw [allAdmit]
    exact ⟨r.admits_of_forall h, allAdmit_of_forall h rs⟩

end

/-- The standard chain without additions asks no resolver of the host. -/
theorem allAdmit_standard (p : Nat → Prop) (ro : Bool) :
    allAdmit p (Layout.standard [] ro).resolvers := by
  simp [Layout.resolvers, allAdmit, Resolver.Admits]

/-- What is computed from a context does not depend on the scopes of arguments. -/
def Context.Unscoped {α : Type} (f : Context → Action α) : Prop :=
  ∀ c s, f { c with scopes := s } = f c

namespace Lockstep

/-! ## Relations of computations -/

/-- A relation that holds of each simple part with itself, and of sequences of related parts. A chain of a
layout in `L` asks only resolvers of the host that are related to themselves. -/
structure Sequenced (host : Host) (L : Layout → Prop)
    (R : ∀ {α : Type}, Action α → Action α → Prop) : Prop where
  pure {α : Type} (a : α) : R (pure a : Action α) (pure a)
  fail {α : Type} (e : Fault) : R (Action.fail e : Action α) (Action.fail e)
  bind {α β : Type} {x y : Action α} {f g : α → Action β} :
    R x y → (∀ a, R (f a) (g a)) → R (x >>= f) (y >>= g)
  heap : R Action.heap Action.heap
  isResolved : R Action.isResolved Action.isResolved
  context {α : Type} {f g : Context → Action α} : Context.Unscoped f → Context.Unscoped g →
    (∀ c, L c.layout → R (f c) (g c)) → R (Action.context >>= f) (Action.context >>= g)
  setResolved (b : Bool) : R (Action.setResolved b) (Action.setResolved b)
  setCells (h : Heap) : R (Action.setCells h) (Action.setCells h)
  setStore (i : Nat) (f : Bindings Value → Bindings Value) :
    R (Action.modifyContext fun c => c.setStore i (f (c.store i)))
      (Action.modifyContext fun c => c.setStore i (f (c.store i)))
  resolvers (l : Layout) : L l →
    allAdmit (fun i => ∀ {α : Type} (q : Request α), R (host.custom i q) (host.custom i q)) l.resolvers

/-- The relation holds of claims and conversions, and a scope or the events of an expression may be put
around related computations. -/
structure Composition (host : Host) (L : Layout → Prop)
    (R : ∀ {α : Type}, Action α → Action α → Prop) : Prop extends Sequenced host L R where
  claim (base property : Value) : R (Action.claim base property) (Action.claim base property)
  bracketed {α : Type} {x y : Action α} (text : String) : R x y →
    R (bracketed text x) (bracketed text y)
  withScope {α : Type} {x y : Action α} (s : Bindings Value) : R x y →
    R (withScope s x) (withScope s y)
  convert (v : Value) (t : TypeRef) : R (Conversion.convert host v t) (Conversion.convert host v t)

/-- Two handlers carry out tasks in a related way. -/
structure Composed (host : Host) (handle handle' : Handler) (L : Layout → Prop)
    (R : ∀ {α : Type}, Action α → Action α → Prop) : Prop extends Composition host L R where
  handler {α : Type} (t : Task α) : R (handle t) (handle' t)

/-- The code of all methods is carried out in a related way too. -/
structure Programmed (host : Host) (handle handle' : Handler) (L : Layout → Prop)
    (R : ∀ {α : Type}, Action α → Action α → Prop) : Prop extends Composed host handle handle' L R where
  run {m : Method} (self : Value) (args : List Value) :
    host.classes.Declares m → R (m.run host handle self args) (m.run host handle' self args)

/-- A relation that holds of the parts and of what is put together of related ones, also where faults are
caught. -/
structure Discipline (host : Host) (L : Layout → Prop)
    (R : ∀ {α : Type}, Action α → Action α → Prop) : Prop extends Sequenced host L R where
  attempt {α : Type} {x y : Action α} : R x y → R x.attempt y.attempt
  notify (e : Event) : R (Action.notify e) (Action.notify e)
  withScope {α : Type} {x y : Action α} (s : Bindings Value) : R x y →
    R (withScope s x) (withScope s y)

/-- Two handlers carry out tasks as the discipline relates them. -/
structure Disciplined (host : Host) (handle handle' : Handler) (L : Layout → Prop)
    (R : ∀ {α : Type}, Action α → Action α → Prop) : Prop extends Discipline host L R where
  handler {α : Type} (t : Task α) : R (handle t) (handle' t)

variable {α β : Type} {host : Host} {handle handle' : Handler} {L : Layout → Prop}
  {R : ∀ {α : Type}, Action α → Action α → Prop}

namespace Sequenced

variable (hd : Sequenced host L R)

omit hd in
theorem ite (_ : Sequenced host L R) {c : Prop} [Decidable c] {x x' y y' : Action α} (hx : R x x')
    (hy : R y y') : R (if c then x else y) (if c then x' else y') := by
  split
  · exact hx
  · exact hy

include hd

theorem ofExcept (r : Except Fault α) : R (Action.ofExcept r) (Action.ofExcept r) := by
  cases r with
  | ok a => exact hd.pure a
  | error e => exact hd.fail e

/-- What follows a result is only carried out with that result. -/
theorem ofExcept_bind {r : Except Fault α} {f g : α → Action β}
    (hfg : ∀ a, r = .ok a → R (f a) (g a)) :
    R (Action.ofExcept r >>= f) (Action.ofExcept r >>= g) := by
  cases r with
  | ok a => exact hfg a rfl
  | error e => exact hd.fail e

theorem map {x y : Action α} (k : α → β) (h : R x y) : R (k <$> x) (k <$> y) := by
  rw [map_eq_pure_bind, map_eq_pure_bind]
  exact hd.bind h fun a => hd.pure (k a)

theorem build (f : Heap → Value × Heap) : R (Action.build f) (Action.build f) :=
  hd.bind hd.heap fun _ => hd.bind (hd.setCells _) fun _ => hd.pure _

/-! ## The chain of resolvers -/

section Chain
variable {answer answer' : Answerer} {p : Nat → Prop}

mutual

theorem ask (ha : ∀ {β : Type} (r : Resolver) (q : Request β), r.Admits p →
      R (answer r q) (answer' r q)) :
    ∀ (r : Resolver) (q : Request α), r.Admits p → R (r.ask answer q) (r.ask answer' q)
  | .group members, q, hr => by
    rw [Resolver.Admits] at hr
    rw [Resolver.ask, Resolver.ask]
    exact hd.bind (hd.setResolved false) fun _ => askAll ha members q hr
  | .names _, q, hr | .statics, q, hr | .maps _, q, hr | .lists _, q, hr | .arrays _, q, hr
  | .records, q, hr | .beans _, q, hr | .custom _, q, hr => by
    rw [Resolver.ask, Resolver.ask]
    · exact ha _ q hr
    all_goals rintro _ ⟨⟩

theorem askAll (ha : ∀ {β : Type} (r : Resolver) (q : Request β), r.Admits p →
      R (answer r q) (answer' r q)) :
    ∀ (rs : List Resolver) (q : Request α), allAdmit p rs →
      R (askAll answer rs q) (askAll answer' rs q)
  | [], q, _ => by
    rw [ExprLang.askAll, ExprLang.askAll]
    exact hd.pure _
  | r :: rs, q, hrs => by
    rw [allAdmit] at hrs
    rw [ExprLang.askAll, ExprLang.askAll]
    refine hd.bind (ask ha r q hrs.1) fun a => hd.bind hd.isResolved fun claimed => ?_
    exact hd.ite (hd.pure a) (askAll ha rs q hrs.2)

end

theorem askChain (ha : ∀ {β : Type} (r : Resolver) (q : Request β),
      r.Admits (fun i => ∀ {γ : Type} (q : Request γ), R (host.custom i q) (host.custom i q)) →
        R (answer r q) (answer' r q))
    (q : Request α) : R (askChain answer q) (askChain answer' q) := by
  refine hd.context (fun c s => rfl) (fun c s => rfl) fun c hc => ?_
  refine hd.ask ha (.group c.layout.resolvers) q ?_
  rw [Resolver.Admits]
  exact hd.resolvers c.layout hc

end Chain
end Sequenced

namespace Composition

variable (hd : Composition host L R)
include hd

theorem convertTo? (v : Value) (t : Option TypeRef) :
    R (Conversion.convertTo? host v t) (Conversion.convertTo? host v t) := by
  cases t with
  | none => exact hd.pure v
  | some t => exact hd.convert v t

theorem convertAll : ∀ (ts : List TypeRef) (vs : List Value),
    R (Method.convertAll host ts vs) (Method.convertAll host ts vs)
  | t :: ts, v :: vs =>
    hd.bind (hd.convert v t) fun _ => hd.bind (convertAll ts vs) fun _ => hd.pure _
  | [], _ => hd.pure _
  | _ :: _, [] => hd.pure _

end Composition

/-! ## Expressions -/

namespace Composed

variable (hd : Composed host handle handle' L R)
include hd

theorem closure (f : Closure) (args : List Value) :
    R (f.invoke handle args) (f.invoke handle' args) :=
  hd.withScope _ (hd.handler _)

theorem read (e : ValueExpr) : R (e.read host handle) (e.read host handle') := by
  cases e with
  | parsed text node bound expected =>
    exact hd.bracketed text (hd.bind (hd.handler _) fun v => hd.convertTo? v expected)
  | literal v expected => exact hd.convertTo? v expected

theorem write (e : ValueExpr) (v : Value) : R (e.write handle v) (e.write handle' v) := by
  cases e with
  | parsed text node bound expected => exact hd.bracketed text (hd.handler _)
  | literal w expected => exact hd.bind hd.heap fun _ => hd.fail _

theorem isReadOnly (e : ValueExpr) : R (e.isReadOnly handle) (e.isReadOnly handle') := by
  cases e with
  | parsed text node bound expected => exact hd.handler _
  | literal w expected => exact hd.pure _

theorem type? (e : ValueExpr) : R (e.type? handle) (e.type? handle') := by
  cases e with
  | parsed text node bound expected => exact hd.handler _
  | literal w expected => exact hd.pure _

theorem methodExpr_invoke (m : MethodExpr) (args : List Value) :
    R (m.invoke host handle args) (m.invoke host handle' args) := by
  cases m with
  | parsed text node bound returns params => exact hd.bracketed text (hd.handler _)
  | plain text returns params =>
    rcases returns with _ | t
    · exact hd.pure _
    · cases t <;> first | exact hd.pure _ | exact hd.convert _ _

theorem methodExpr_info (m : MethodExpr) : R (m.info handle) (m.info handle') := by
  cases m with
  | parsed text node bound returns params => exact hd.handler _
  | plain text returns params => exact hd.pure _

end Composed

theorem Programmed.method_invoke (hd : Programmed host handle handle' L R) {m : Method}
    (hm : host.classes.Declares m) (self : Value) (args : List Value) :
    R (m.invoke host handle self args) (m.invoke host handle' self args) := by
  refine hd.bind hd.heap fun h => ?_
  have whole : R
      (if args.length = m.params.length then do
        let converted ← Method.convertAll host m.params args
        m.run host handle self converted
      else Action.fail (.wrongCount (m.signature h.lineage) m.params.length args.length))
      (if args.length = m.params.length then do
        let converted ← Method.convertAll host m.params args
        m.run host handle' self converted
      else Action.fail (.wrongCount (m.signature h.lineage) m.params.length args.length)) :=
    hd.ite (hd.bind (hd.convertAll _ _) fun _ => hd.run self _ hm) (hd.fail _)
  cases m.gathers with
  | none => exact whole
  | some component =>
    cases m.takesArray h args with
    | true => exact whole
    | false =>
      exact hd.bind (hd.convertAll _ _) fun _ => hd.bind (hd.convertAll _ _) fun _ =>
        hd.bind (hd.build _) fun _ => hd.run self _ hm

/-! ## Computations that catch faults -/

namespace Discipline

variable (hd : Discipline host L R)
include hd

theorem claim (base property : Value) : R (Action.claim base property) (Action.claim base property) :=
  hd.bind (hd.setResolved true) fun _ => hd.bind hd.heap fun _ => hd.notify _

theorem bracketed {x y : Action α} (text : String) (h : R x y) :
    R (bracketed text x) (bracketed text y) :=
  hd.bind (hd.notify _) fun _ => hd.bind h fun _ => hd.bind (hd.notify _) fun _ => hd.pure _

theorem convert (v : Value) (t : TypeRef) :
    R (Conversion.convert host v t) (Conversion.convert host v t) := by
  refine hd.bind hd.isResolved fun before => hd.bind (hd.setResolved false) fun _ =>
    hd.bind (hd.attempt (hd.askChain ?_ _)) fun r => hd.bind hd.isResolved fun claimed =>
    hd.bind (hd.setResolved before) fun _ => hd.bind (hd.ofExcept r) fun converted =>
    hd.ite (hd.pure _) (hd.bind hd.heap fun _ => hd.ofExcept _)
  intro β r q hr
  cases r with
  | custom i =>
    rw [Resolver.Admits] at hr
    exact hr q
  | _ => exact hd.pure _

theorem composition : Composition host L R where
  toSequenced := hd.toSequenced
  claim := hd.claim
  bracketed := hd.bracketed
  withScope := hd.withScope
  convert := hd.convert

theorem withText (text : String) {use use' : ValueExpr → Action α} (hu : ∀ e, R (use e) (use' e)) :
    R (withText host text use) (withText host text use') :=
  hd.attempt (hd.context (fun _ _ => rfl) (fun _ _ => rfl) fun _ _ =>
    hd.bind (hd.ofExcept _) fun e => hu e)

end Discipline

/-! ## Code of the host -/

namespace Disciplined

variable (hd : Disciplined host handle handle' L R)
include hd

theorem composed : Composed host handle handle' L R :=
  ⟨hd.composition, hd.handler⟩

theorem perform (code : HostCode) : R (code.perform host handle) (code.perform host handle') := by
  have hc := hd.composed
  induction code with
  | finish r => exact hd.pure r
  | read next ih => exact hd.bind hd.heap fun h => ih h
  | write h next ih => exact hd.bind (hd.setCells h) fun _ => ih
  | bean name next ih => exact hd.context (fun _ _ => rfl) (fun _ _ => rfl) fun c _ => ih _
  | call f args next ih => exact hd.bind (hd.attempt (hc.closure f args)) fun r => ih r
  | evaluate text next ih => exact hd.bind (hd.withText text fun e => hc.read e) fun r => ih r
  | typeOf text next ih => exact hd.bind (hd.withText text fun e => hc.type? e) fun r => ih r
  | readOnly text next ih =>
    exact hd.bind (hd.withText text fun e => hc.isReadOnly e) fun r => ih r
  | assign text v next ih => exact hd.bind (hd.withText text fun e => hc.write e v) fun r => ih r

theorem method_run (m : Method) (self : Value) (args : List Value) :
    R (m.run host handle self args) (m.run host handle' self args) := by
  unfold Method.run
  cases m.body with
  | none => exact hd.bind hd.heap fun _ => hd.fail _
  | some code =>
    refine hd.bind (hd.perform _) fun r => ?_
    cases r with
    | ok v => exact hd.pure v
    | error e => exact hd.fail _

theorem programmed : Programmed host handle handle' L R :=
  ⟨hd.composed, fun self args _ => hd.method_run _ self args⟩

end Disciplined

end Lockstep

end ExprLang
