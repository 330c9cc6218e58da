import ExprLang.Proofs.Evaluation.Frame

/-! Evaluations side by side. Two worlds may differ in the scopes of arguments, as long as the same is
seen in them, and in what happened before: the evaluator then does the same in both. -/

namespace ExprLang

/-- A stack of scopes. -/
abbrev Stack := List (Bindings Value)

namespace Stack

/-- The innermost argument of a name. -/
def argument? (s : Stack) (name : String) : Option Value := s.findSome? (·.find? name)

/-- All arguments in sight. -/
def arguments (s : Stack) : Bindings Value :=
  s.foldr (fun scope outer => outer.override scope) []

/-- The same is seen in both stacks. -/
structure Alike (s s' : Stack) : Prop where
  argument? (name : String) : s'.argument? name = s.argument? name
  arguments : s'.arguments = s.arguments

theorem Alike.refl (s : Stack) : s.Alike s := ⟨fun _ => rfl, rfl⟩

theorem Alike.cons {s s' : Stack} (h : s.Alike s') (scope : Bindings Value) :
    Alike (scope :: s) (scope :: s') where
  argument? name := by
    have hname := h.argument? name
    unfold Stack.argument? at hname ⊢
    rw [List.findSome?_cons, List.findSome?_cons, hname]
  arguments := congrArg (Bindings.override · scope) h.arguments

end Stack

/-- The world with another stack of scopes. -/
def World.onStack (w : World) (s : Stack) : World := { w with context := { w.context with scopes := s } }

/-- Outcomes of the same kind with the same result, which leave related worlds. -/
inductive Outcome.Paired {α : Type} (r : World → World → Prop) : Outcome α → Outcome α → Prop where
  | value (a : α) {u u' : World} : r u u' → Paired r (.value a u) (.value a u')
  | fault (e : Fault) {u u' : World} : r u u' → Paired r (.fault e u) (.fault e u')
  | exhausted : Paired r .exhausted .exhausted

namespace Outcome.Paired

variable {α β : Type} {r s : World → World → Prop}

theorem mono {o o' : Outcome α} (h : Paired r o o') (hrs : ∀ u u', r u u' → s u u') :
    Paired s o o' := by
  cases h with
  | value a hu => exact .value a (hrs _ _ hu)
  | fault e hu => exact .fault e (hrs _ _ hu)
  | exhausted => exact .exhausted

theorem after {f f' : World → World} {o o' : Outcome α} (h : Paired r o o')
    (hf : ∀ u u', r u u' → s (f u) (f' u')) : Paired s (o.after f) (o'.after f') := by
  cases h with
  | value a hu => exact .value a (hf _ _ hu)
  | fault e hu => exact .fault e (hf _ _ hu)
  | exhausted => exact .exhausted

/-- Sequences do the same where their parts do. -/
theorem bind {x y : Action α} {f g : α → Action β} {w w' : World} (h : Paired r (x w) (y w'))
    (hfg : ∀ a u u', x w = .value a u → r u u' → Paired r (f a u) (g a u')) :
    Paired r ((x >>= f) w) ((y >>= g) w') := by
  generalize hx : x w = o, hy : y w' = o' at h
  cases h with
  | value a hu =>
    rw [Action.bind_value hx, Action.bind_value hy]
    exact hfg a _ _ hx hu
  | fault e hu =>
    rw [Action.bind_fault hx, Action.bind_fault hy]
    exact .fault e hu
  | exhausted =>
    rw [Action.bind_exhausted hx, Action.bind_exhausted hy]
    exact .exhausted

end Outcome.Paired

/-- Two worlds side by side: the first one has the context `c` but for claims and the values of names,
the second one another stack. Since some moment, when other events had happened in each, the same
happened in both. -/
structure Parallel (c : Context) (s : Stack) (p p' : List Event) (w w' : World) : Prop where
  heap : w'.heap = w.heap
  frame : { w.context with resolved := c.resolved, stores := c.stores } = c
  context : w'.context = { w.context with scopes := s }
  log : ∃ new, w.log = new ++ p ∧ w'.log = new ++ p'

namespace Parallel

variable {c : Context} {s : Stack} {p p' : List Event} {w w' : World}

theorem layout (h : Parallel c s p p' w w') : w.context.layout = c.layout := by
  have hc := congrArg Context.layout h.frame
  exact hc

theorem scopes (h : Parallel c s p p' w w') : w.context.scopes = c.scopes := by
  have hc := congrArg Context.scopes h.frame
  exact hc

theorem looks (h : Parallel c s p p' w w') (hs : Stack.Alike c.scopes s) :
    w.context.Looks w'.context := by
  refine ⟨by rw [h.context], fun name => ?_, ?_⟩
  · have hname := hs.argument? name
    rw [← h.scopes] at hname
    rw [h.context]
    exact hname
  · have hall := hs.arguments
    rw [← h.scopes] at hall
    rw [h.context]
    exact hall

theorem pushed (h : Parallel c s p p' w w') (scope : Bindings Value) :
    Parallel { c with scopes := scope :: c.scopes } (scope :: s) p p' (w.pushed scope)
      (w'.pushed scope) where
  heap := h.heap
  frame := by
    have hc := congrArg (fun d : Context => { d with scopes := scope :: d.scopes }) h.frame
    exact hc
  context := by
    show { w'.context with scopes := scope :: w'.context.scopes } = _
    rw [h.context]
    rfl
  log := h.log

theorem popped {scope : Bindings Value}
    (h : Parallel { c with scopes := scope :: c.scopes } (scope :: s) p p' w w') :
    Parallel c s p p' w.popped w'.popped where
  heap := h.heap
  frame := by
    have hc := congrArg (fun d : Context => { d with scopes := d.scopes.tail }) h.frame
    exact hc
  context := by
    show { w'.context with scopes := w'.context.scopes.tail } = _
    rw [h.context]
    rfl
  log := h.log

end Parallel

/-- A computation does the same in worlds side by side, where the chain has a layout in `L`. -/
def Action.Steady (L : Layout → Prop) {α : Type} (x : Action α) : Prop :=
  ∀ (c : Context) (s : Stack) (p p' : List Event), L c.layout → Stack.Alike c.scopes s →
    ∀ w w', Parallel c s p p' w w' → Outcome.Paired (Parallel c s p p') (x w) (x w')

/-- The resolvers of the host that such a chain asks do the same in worlds side by side. -/
def Host.Steady (L : Layout → Prop) (host : Host) : Prop :=
  ∀ l, L l →
    allAdmit (fun i => ∀ {α : Type} (q : Request α), Action.Steady L (host.custom i q)) l.resolvers

/-- A standard chain without additions asks no resolvers of the host. -/
theorem Host.steady_standard (host : Host) (ro : Bool) : host.Steady (· = .standard [] ro) := by
  rintro l rfl
  exact allAdmit_standard _ ro

theorem Host.Steady.discipline {L : Layout → Prop} {host : Host} (hr : host.Steady L) :
    Discipline host L (Action.Steady L) where
  pure a c s p p' _ _ w w' h := .value a h
  fail e c s p p' _ _ w w' h := .fault e h
  exhausted c s p p' _ _ w w' h := .exhausted
  bind hx hf c s p p' hl hs w w' h :=
    (hx c s p p' hl hs w w' h).bind fun a _ _ _ hu => hf a c s p p' hl hs _ _ hu
  attempt {α x} hx c s p p' hl hs w w' h := by
    have hpair := hx c s p p' hl hs w w' h
    unfold Action.attempt
    revert hpair
    generalize x w = o, x w' = o'
    rintro (⟨a, hu⟩ | ⟨e, hu⟩ | _)
    · exact .value _ hu
    · exact .value _ hu
    · exact .exhausted
  heap c s p p' _ _ w w' h := by
    rw [Action.heap_apply, Action.heap_apply, h.heap]
    exact .value _ h
  isResolved c s p p' _ _ w w' h := by
    rw [Action.isResolved_apply, Action.isResolved_apply, h.context]
    exact .value _ h
  context {α f} hf hL c s p p' hl hs w w' h := by
    have hsame : f w'.context = f w.context := hf _ _ (h.looks hs)
    have hlayout : L w.context.layout := h.layout ▸ hl
    rw [Action.bind_value (Action.context_apply w), Action.bind_value (Action.context_apply w'),
      hsame]
    exact hL w.context hlayout c s p p' hl hs w w' h
  setResolved b c s p p' _ _ w w' h := by
    refine .value () ⟨h.heap, h.frame, ?_, h.log⟩
    show { w'.context with resolved := b } = _
    rw [h.context]
  setCells g c s p p' _ _ w w' h := by
    refine .value () ⟨?_, h.frame, h.context, h.log⟩
    show ({ w'.heap with cells := g.cells } : Heap) = { w.heap with cells := g.cells }
    rw [h.heap]
  setStore i f c s p p' _ _ w w' h := by
    refine .value () ⟨h.heap, h.frame, ?_, h.log⟩
    show w'.context.setStore i (f (w'.context.store i)) = _
    rw [h.context]
    rfl
  notify e c s p p' _ _ w w' h := by
    have hlisteners : w'.context.listeners = w.context.listeners := by rw [h.context]
    obtain ⟨new, hlog, hlog'⟩ := h.log
    have hnext : Parallel c s p p' { w with log := e :: w.log } { w' with log := e :: w'.log } :=
      ⟨h.heap, h.frame, h.context, e :: new, by rw [hlog]; rfl, by rw [hlog']; rfl⟩
    simp only [Action.notify, hlisteners]
    split
    · exact .fault _ hnext
    · exact .value () hnext
  withScope scope hx c s p p' hl hs w w' h := by
    rw [withScope_apply, withScope_apply]
    exact (hx { c with scopes := scope :: c.scopes } (scope :: s) p p' hl (hs.cons scope) _ _
      (h.pushed scope)).after fun _ _ hu => hu.popped
  resolvers l hl := hr l hl

/-- Every run is the same in worlds side by side. -/
theorem Evaluation.run_steady {L : Layout → Prop} {host : Host} (hr : host.Steady L) (depth : Nat)
    {α : Type} (t : Task α) : Action.Steady L (run host depth t) :=
  run_obeys hr.discipline depth t

theorem Host.Steady.disciplined {L : Layout → Prop} {host : Host} (hr : host.Steady L) (depth : Nat) :
    Disciplined host (Evaluation.run host depth) L (Action.Steady L) :=
  ⟨hr.discipline, Evaluation.run_steady hr depth⟩

end ExprLang
