import ExprLang.Proofs.Declared
import ExprLang.Proofs.Evaluation.Frame
import ExprLang.Proofs.Resolution.Standard

/-! The events of an evaluation nest. An expression ends before the one that it is a part of, and
properties are claimed only while some expression is read. -/

namespace ExprLang

/-- The texts of the expressions that are open after these events, the innermost first, where `texts`
were open before. There are none if an expression ends that is not the innermost one, or if a property
is claimed while no expression is open. -/
def openAfter : List String → List Event → Option (List String)
  | texts, [] => some texts
  | texts, .before t :: es => openAfter (t :: texts) es
  | [], .after _ :: _ => none
  | t :: texts, .after t' :: es => if t' = t then openAfter texts es else none
  | [], .resolved _ _ :: _ => none
  | t :: texts, .resolved _ _ :: es => openAfter (t :: texts) es
  | texts, .note _ :: es => openAfter texts es

/-- Each expression that begins ends again, with those inside it, and properties are claimed inside. -/
def Nested (es : List Event) : Prop := openAfter [] es = some []

instance (es : List Event) : Decidable (Nested es) := inferInstanceAs (Decidable (_ = _))

theorem openAfter_append (texts : List String) (es es' : List Event) :
    openAfter texts (es ++ es') = (openAfter texts es).bind (openAfter · es') := by
  fun_induction openAfter texts es with
  | case1 texts => rfl
  | case2 texts t es ih => exact ih
  | case3 => rfl
  | case4 t texts es ih => rw [List.cons_append, openAfter, if_pos rfl, ih]
  | case5 t texts t' es hne => rw [List.cons_append, openAfter, if_neg hne]; rfl
  | case6 => rfl
  | case7 t texts type property es ih => exact ih
  | case8 texts text es ih => rw [List.cons_append, openAfter, ih]

/-- Open expressions can always be brought to their ends. -/
theorem openAfter_ends (texts : List String) : openAfter texts (texts.map .after) = some [] := by
  induction texts with
  | nil => rfl
  | cons t texts ih => rw [List.map_cons, openAfter, if_pos rfl, ih]

/-! ## Worlds one after the other -/

/-- The standard chain, and listeners that never object. -/
structure Context.Quiet (c : Context) : Prop where
  layout : ∃ ro, c.layout = .standard [] ro
  listeners : ∀ l ∈ c.listeners, ∀ e, l.objection e = none

namespace World

variable {inside : Prop} {u v w : World}

/-- Since `w` expressions began and ended again; where the events are to stand `inside`, one was open
all the time. -/
structure Whole (inside : Prop) (w u : World) : Prop where
  quiet : u.context.Quiet
  events : ∃ es, u.log = es.reverse ++ w.log ∧
    ∀ texts, (inside → texts ≠ []) → openAfter texts es = some texts

/-- Since `w` expressions began, and some did not end. -/
structure Cut (inside : Prop) (w u : World) : Prop where
  quiet : u.context.Quiet
  events : ∃ es, u.log = es.reverse ++ w.log ∧
    ∀ texts, (inside → texts ≠ []) → ∃ new, openAfter texts es = some (new ++ texts)

theorem Whole.refl (h : w.context.Quiet) : w.Whole inside w := ⟨h, [], rfl, fun _ _ => rfl⟩

theorem Whole.cut (h : w.Whole inside u) : w.Cut inside u := by
  obtain ⟨hquiet, es, hlog, hopen⟩ := h
  exact ⟨hquiet, es, hlog, fun texts ht => ⟨[], hopen texts ht⟩⟩

theorem Whole.trans (h : w.Whole inside u) (h' : u.Whole inside v) : w.Whole inside v := by
  obtain ⟨-, es, hlog, hopen⟩ := h
  obtain ⟨hquiet, es', hlog', hopen'⟩ := h'
  refine ⟨hquiet, es ++ es', ?_, fun texts ht => ?_⟩
  · rw [hlog', hlog, List.reverse_append, List.append_assoc]
  · rw [openAfter_append, hopen texts ht, Option.bind_some, hopen' texts ht]

theorem Cut.trans (h : w.Cut inside u) (h' : u.Cut inside v) : w.Cut inside v := by
  obtain ⟨-, es, hlog, hopen⟩ := h
  obtain ⟨hquiet, es', hlog', hopen'⟩ := h'
  refine ⟨hquiet, es ++ es', ?_, fun texts ht => ?_⟩
  · rw [hlog', hlog, List.reverse_append, List.append_assoc]
  · obtain ⟨new, hnew⟩ := hopen texts ht
    obtain ⟨new', hnew'⟩ := hopen' (new ++ texts) fun hin =>
      List.append_ne_nil_of_right_ne_nil _ (ht hin)
    refine ⟨new' ++ new, ?_⟩
    rw [openAfter_append, hnew, Option.bind_some, hnew', List.append_assoc]

/-- The part of the world that events are about. -/
def eventful (w : World) : List Event × Layout × List Listener :=
  (w.log, w.context.layout, w.context.listeners)

theorem Whole.of_eventful (h : w.context.Quiet) (hu : u.eventful = w.eventful) :
    w.Whole inside u := by
  obtain ⟨hlog, hcontext⟩ := Prod.mk.inj hu
  obtain ⟨hlayout, hlisteners⟩ := Prod.mk.inj hcontext
  refine ⟨⟨?_, ?_⟩, [], hlog, fun _ _ => rfl⟩
  · rw [hlayout]
    exact h.layout
  · rw [hlisteners]
    exact h.listeners

end World

/-- An outcome after nested events; a fault leaves some expressions open. -/
inductive Outcome.Nests {α : Type} (inside : Prop) (w : World) : Outcome α → Prop where
  | value (a : α) {u : World} : w.Whole inside u → Nests inside w (.value a u)
  | fault (e : Fault) {u : World} : w.Cut inside u → Nests inside w (.fault e u)
  | exhausted : Nests inside w .exhausted

theorem Outcome.Nests.from {α : Type} {inside : Prop} {w u : World} {o : Outcome α}
    (ho : o.Nests inside u) (h : w.Whole inside u) : o.Nests inside w := by
  cases ho with
  | value a hv => exact .value a (h.trans hv)
  | fault e hv => exact .fault e (h.cut.trans hv)
  | exhausted => exact .exhausted

namespace Action

variable {α β : Type} {inside : Prop}

/-- The events of a computation nest, if no listener objects. -/
def Nests (inside : Prop) (x : Action α) : Prop :=
  ∀ w : World, w.context.Quiet → (x w).Nests inside w

theorem nests_of_keeps {x : Action α} (h : Keeps World.eventful x) : Nests inside x := by
  intro w hw
  cases hx : x w with
  | value a u => exact .value a (.of_eventful hw (h w u (by rw [hx]; rfl)))
  | fault e u =>
    exact .fault e (World.Whole.of_eventful hw (h w u (by rw [hx]; rfl))).cut
  | exhausted => exact .exhausted

theorem Nests.bind {x : Action α} {f : α → Action β} (hx : Nests inside x)
    (hf : ∀ a, Nests inside (f a)) : Nests inside (x >>= f) := by
  intro w hw
  have hnests := hx w hw
  cases hv : x w with
  | value a u =>
    rw [hv] at hnests
    cases hnests with
    | value _ hu =>
      rw [bind_value hv]
      exact (hf a u hu.quiet).from hu
  | fault e u =>
    rw [hv] at hnests
    cases hnests with
    | fault _ hu =>
      rw [bind_fault hv]
      exact .fault e hu
  | exhausted =>
    rw [bind_exhausted hv]
    exact .exhausted

/-- An event is recorded, and no listener objects. -/
theorem notify_quiet {w : World} (hw : w.context.Quiet) (e : Event) :
    notify e w = .value () { w with log := e :: w.log } := by
  have hnone : objection? w.context.listeners e = none :=
    List.findSome?_eq_none_iff.mpr fun l hl => hw.listeners l hl e
  simp only [notify, hnone]

theorem setResolved_nests (b : Bool) : Nests inside (setResolved b) := by
  refine nests_of_keeps fun w u h => ?_
  cases h
  rfl

theorem claim_nests (base property : Value) : Nests True (claim base property) := by
  refine (setResolved_nests true).bind fun _ => (nests_of_keeps .heap).bind fun h w hw => ?_
  rw [notify_quiet hw]
  refine .value () ⟨⟨hw.layout, hw.listeners⟩, [_], rfl, fun texts ht => ?_⟩
  cases texts with
  | nil => exact (ht trivial rfl).elim
  | cons t texts => rfl

end Action

/-- With the events of an expression around them, events may stand anywhere. -/
theorem bracketed_nests {α : Type} {inside : Prop} {x : Action α} (text : String)
    (hx : x.Nests True) : (bracketed text x).Nests inside := by
  intro w hw
  let v : World := { w with log := .before text :: w.log }
  have hv : v.context.Quiet := hw
  have hbefore : Action.notify (.before text) w = .value () v := Action.notify_quiet hw _
  rw [bracketed, Action.bind_value hbefore]
  have hnests := hx v hv
  cases hxv : x v with
  | value a u =>
    rw [hxv] at hnests
    cases hnests with
    | value _ hu =>
      obtain ⟨hquiet, es, hlog, hopen⟩ := hu
      rw [Action.bind_value hxv, Action.bind_value (Action.notify_quiet hquiet _)]
      refine .value a ⟨hquiet, .before text :: es ++ [.after text], ?_, fun texts _ => ?_⟩
      · show _ :: u.log = _
        rw [hlog]
        simp [v]
      · rw [List.cons_append, openAfter, openAfter_append, hopen _ fun _ => List.cons_ne_nil _ _,
          Option.bind_some, openAfter, if_pos rfl, openAfter]
  | fault e u =>
    rw [hxv] at hnests
    cases hnests with
    | fault _ hu =>
      obtain ⟨hquiet, es, hlog, hopen⟩ := hu
      rw [Action.bind_fault hxv]
      refine .fault e ⟨hquiet, .before text :: es, ?_, fun texts _ => ?_⟩
      · rw [hlog]
        simp [v]
      · obtain ⟨new, hnew⟩ := hopen (text :: texts) fun _ => List.cons_ne_nil _ _
        exact ⟨new ++ [text], by rw [openAfter, hnew, List.append_assoc]; rfl⟩
  | exhausted =>
    rw [Action.bind_exhausted hxv]
    exact .exhausted

/-- Scopes make no events. -/
theorem withScope_nests {α : Type} {inside : Prop} {x : Action α} (s : Bindings Value)
    (hx : x.Nests inside) : (withScope s x).Nests inside := by
  intro w hw
  rw [withScope_apply]
  have hnests := hx (w.pushed s) ⟨hw.layout, hw.listeners⟩
  revert hnests
  generalize x (w.pushed s) = o
  rintro (⟨a, hquiet, hevents⟩ | ⟨e, hquiet, hevents⟩ | _)
  · exact .value a ⟨⟨hquiet.layout, hquiet.listeners⟩, hevents⟩
  · exact .fault e ⟨⟨hquiet.layout, hquiet.listeners⟩, hevents⟩
  · exact .exhausted

/-- In the standard chain nothing is asked for a conversion. -/
theorem convert_nests {host : Host} {inside : Prop} (v : Value) (t : TypeRef) :
    (Conversion.convert host v t).Nests inside := by
  intro w hw
  obtain ⟨ro, hlayout⟩ := hw.layout
  rw [Conversion.convert_standard hlayout]
  exact Action.nests_of_keeps (.ofExcept _) w hw

theorem convertTo?_nests {host : Host} {inside : Prop} (v : Value) (t : Option TypeRef) :
    (Conversion.convertTo? host v t).Nests inside := by
  cases t with
  | none => exact Action.nests_of_keeps (.pure v)
  | some t => exact convert_nests v t

/-- What the parts of computations do in the standard chain nests. -/
theorem nests_composition (host : Host) :
    Composition host (fun l => ∃ ro, l = .standard [] ro) (Action.Nests True) where
  pure a := Action.nests_of_keeps (.pure a)
  fail e := Action.nests_of_keeps (.fail e)
  exhausted _ _ := .exhausted
  bind := .bind
  heap := Action.nests_of_keeps .heap
  isResolved := Action.nests_of_keeps .isResolved
  context {α f} _ hf w hw := by
    rw [Action.bind_value (Action.context_apply w)]
    exact hf w.context hw.layout w hw
  setResolved := Action.setResolved_nests
  setCells h := Action.nests_of_keeps fun w u hu => by
    cases hu
    rfl
  setStore i f := Action.nests_of_keeps fun w u hu => by
    cases hu
    rfl
  resolvers := by
    rintro _ ⟨ro, rfl⟩
    exact allAdmit_standard _ ro
  claim := Action.claim_nests
  bracketed text hx := bracketed_nests text hx
  withScope := withScope_nests
  convert := convert_nests

/-! ## Code of the host -/

namespace HostCode

/-- The code ends in an error, whatever it is told. -/
def Fails : HostCode → Prop
  | finish r => ∃ e, r = .error e
  | read next => ∀ h, (next h).Fails
  | write _ next => next.Fails
  | bean _ next => ∀ v, (next v).Fails
  | call _ _ next => ∀ r, (next r).Fails
  | evaluate _ next => ∀ r, (next r).Fails
  | typeOf _ next => ∀ r, (next r).Fails
  | readOnly _ next => ∀ r, (next r).Fails
  | assign _ _ next => ∀ r, (next r).Fails

/-- After a call or an expression that fails, the code ends in an error too. -/
def Propagates : HostCode → Prop
  | finish _ => True
  | read next => ∀ h, (next h).Propagates
  | write _ next => next.Propagates
  | bean _ next => ∀ v, (next v).Propagates
  | call _ _ next => (∀ v, (next (.ok v)).Propagates) ∧ ∀ e, (next (.error e)).Fails
  | evaluate _ next => (∀ v, (next (.ok v)).Propagates) ∧ ∀ e, (next (.error e)).Fails
  | typeOf _ next => (∀ t, (next (.ok t)).Propagates) ∧ ∀ e, (next (.error e)).Fails
  | readOnly _ next => (∀ b, (next (.ok b)).Propagates) ∧ ∀ e, (next (.error e)).Fails
  | assign _ _ next => (∀ u, (next (.ok u)).Propagates) ∧ ∀ e, (next (.error e)).Fails

end HostCode

/-- The code of the method propagates errors. -/
def Declaration.Propagates (d : Declaration) : Prop :=
  ∀ code, d.body = some code → ∀ self args, (code self args).Propagates

variable {ε α β : Type}

/-- A result after nested events, or an error that was caught and has left some expressions open. -/
inductive Outcome.Caught (w : World) : Outcome (Except ε α) → Prop where
  | ok (a : α) {u : World} : w.Whole True u → Caught w (.value (.ok a) u)
  | error (e : ε) {u : World} : w.Cut True u → Caught w (.value (.error e) u)
  | exhausted : Caught w .exhausted

/-- An error that has left some expressions open. -/
inductive Outcome.Failed (w : World) : Outcome (Except ε α) → Prop where
  | error (e : ε) {u : World} : w.Cut True u → Failed w (.value (.error e) u)
  | exhausted : Failed w .exhausted

namespace Outcome

variable {w u : World} {o : Outcome (Except ε α)}

theorem Failed.caught (h : o.Failed w) : o.Caught w := by
  cases h with
  | error e hu => exact .error e hu
  | exhausted => exact .exhausted

theorem Failed.from (ho : o.Failed u) (h : w.Cut True u) : o.Failed w := by
  cases ho with
  | error e hv => exact .error e (h.trans hv)
  | exhausted => exact .exhausted

theorem Caught.from (ho : o.Caught u) (h : w.Whole True u) : o.Caught w := by
  cases ho with
  | ok a hv => exact .ok a (h.trans hv)
  | error e hv => exact .error e (h.cut.trans hv)
  | exhausted => exact .exhausted

end Outcome

namespace Action

def Caught (x : Action (Except ε α)) : Prop := ∀ w : World, w.context.Quiet → (x w).Caught w

def Failed (x : Action (Except ε α)) : Prop := ∀ w : World, w.context.Quiet → (x w).Failed w

theorem Nests.attempt {x : Action α} (hx : Nests True x) : x.attempt.Caught := by
  intro w hw
  have hnests := hx w hw
  rw [Action.attempt]
  revert hnests
  generalize x w = o
  rintro (⟨a, hu⟩ | ⟨e, hu⟩ | _)
  · exact .ok a hu
  · exact .error e hu
  · exact .exhausted

/-- Errors may be caught if nothing but an error comes of them. -/
theorem Caught.bind {δ : Type} {x : Action (Except ε α)} {f : Except ε α → Action (Except δ β)}
    (hx : x.Caught) (hok : ∀ a, (f (.ok a)).Caught) (herror : ∀ e, (f (.error e)).Failed) :
    (x >>= f).Caught := by
  intro w hw
  have hcaught := hx w hw
  generalize hv : x w = o at hcaught
  cases hcaught with
  | ok a hu =>
    rw [bind_value hv]
    exact (hok a _ hu.quiet).from hu
  | error e hu =>
    rw [bind_value hv]
    exact ((herror e _ hu.quiet).from hu).caught
  | exhausted =>
    rw [bind_exhausted hv]
    exact .exhausted

theorem Caught.bind_failed {δ : Type} {x : Action (Except ε α)}
    {f : Except ε α → Action (Except δ β)} (hx : x.Caught) (hf : ∀ r, (f r).Failed) :
    (x >>= f).Failed := by
  intro w hw
  have hcaught := hx w hw
  generalize hv : x w = o at hcaught
  cases hcaught with
  | ok a hu =>
    rw [bind_value hv]
    exact (hf _ _ hu.quiet).from hu.cut
  | error e hu =>
    rw [bind_value hv]
    exact (hf _ _ hu.quiet).from hu
  | exhausted =>
    rw [bind_exhausted hv]
    exact .exhausted

end Action

section Code

variable {host : Host} {handle : Handler}
  (hd : Composed host handle (fun l => ∃ ro, l = .standard [] ro) (Action.Nests True))
include hd

theorem withText_caught (text : String) {use : ValueExpr → Action α} (hu : ∀ e, (use e).Nests True) :
    (withText host text use).Caught :=
  Action.Nests.attempt <|
    hd.context (fun c d h => by simp only [expressionOf, h.bound]) fun _ _ =>
      hd.bind (hd.ofExcept _) fun e => hu e

/-- The world with other cells. -/
def World.withCells (w : World) (h : Heap) : World :=
  { w with heap := { w.heap with cells := h.cells } }

theorem perform_failed {code : HostCode} (h : code.Fails) : (code.perform host handle).Failed := by
  induction code with
  | finish r =>
    obtain ⟨e, rfl⟩ := h
    exact fun w hw => .error e (World.Whole.refl hw).cut
  | read next ih => exact fun w hw => ih w.heap (h w.heap) w hw
  | write cells next ih =>
    intro w hw
    show (next.perform host handle (w.withCells cells)).Failed w
    exact (ih h (w.withCells cells) hw).from (World.Whole.of_eventful (u := w.withCells cells) hw rfl).cut
  | bean name next ih => exact fun w hw => ih _ (h _) w hw
  | call f args next ih => exact (hd.closure f args).attempt.bind_failed fun r => ih r (h r)
  | evaluate text next ih =>
    exact (withText_caught hd text hd.read).bind_failed fun r => ih r (h r)
  | typeOf text next ih =>
    exact (withText_caught hd text hd.type?).bind_failed fun r => ih r (h r)
  | readOnly text next ih =>
    exact (withText_caught hd text hd.isReadOnly).bind_failed fun r => ih r (h r)
  | assign text v next ih =>
    exact (withText_caught hd text fun e => hd.write e v).bind_failed fun r => ih r (h r)

theorem perform_caught {code : HostCode} (h : code.Propagates) :
    (code.perform host handle).Caught := by
  induction code with
  | finish r =>
    intro w hw
    cases r with
    | ok v => exact .ok v (.refl hw)
    | error e => exact .error e (World.Whole.refl hw).cut
  | read next ih => exact fun w hw => ih w.heap (h w.heap) w hw
  | write cells next ih =>
    intro w hw
    show (next.perform host handle (w.withCells cells)).Caught w
    exact (ih h (w.withCells cells) hw).from (.of_eventful hw rfl)
  | bean name next ih => exact fun w hw => ih _ (h _) w hw
  | call f args next ih =>
    exact (hd.closure f args).attempt.bind (fun v => ih _ (h.1 v)) fun e => perform_failed hd (h.2 e)
  | evaluate text next ih =>
    exact (withText_caught hd text hd.read).bind (fun v => ih _ (h.1 v)) fun e =>
      perform_failed hd (h.2 e)
  | typeOf text next ih =>
    exact (withText_caught hd text hd.type?).bind (fun t => ih _ (h.1 t)) fun e =>
      perform_failed hd (h.2 e)
  | readOnly text next ih =>
    exact (withText_caught hd text hd.isReadOnly).bind (fun b => ih _ (h.1 b)) fun e =>
      perform_failed hd (h.2 e)
  | assign text v next ih =>
    exact (withText_caught hd text fun e => hd.write e v).bind (fun u => ih _ (h.1 u)) fun e =>
      perform_failed hd (h.2 e)

theorem method_run_nests {m : Method} (hm : m.Propagates) (self : Value) (args : List Value) :
    (m.run host handle self args).Nests True := by
  unfold Method.run
  cases hbody : m.body with
  | none => exact hd.bind hd.heap fun _ => hd.fail _
  | some code =>
    intro w hw
    have hcaught := perform_caught hd (hm code hbody self args) w hw
    generalize hv : (code self args).perform host handle w = o at hcaught
    dsimp only
    cases hcaught with
    | ok v hu =>
      rw [Action.bind_value hv]
      exact .value v hu
    | error e hu =>
      rw [Action.bind_value hv]
      exact .fault _ hu
    | exhausted =>
      rw [Action.bind_exhausted hv]
      exact .exhausted

end Code

theorem Declaration.Plain.propagates {d : Declaration} (h : d.Plain) : d.Propagates := by
  intro code hcode self args
  cases h with
  | look f hbody =>
    cases hbody.symm.trans hcode
    exact fun h => trivial
  | change f hbody =>
    cases hbody.symm.trans hcode
    intro h
    dsimp only
    split <;> trivial
  | invoke hbody =>
    cases hbody.symm.trans hcode
    intro h
    dsimp only
    split
    · exact ⟨fun v => trivial, fun e => ⟨_, rfl⟩⟩
    · trivial

/-- The methods that the host's own classes declare propagate errors. -/
structure Host.Propagates (host : Host) (classes : Array HostClass) : Prop where
  classes_eq : host.classes = .ofHost classes
  methods : ∀ c ∈ classes, ∀ m, m ∈ c.members.methods ∨ m ∈ c.members.constructors → m.Propagates

theorem Host.Propagates.declared {host : Host} {classes : Array HostClass}
    (h : host.Propagates classes) {m : Method} (hm : host.classes.Declares m) : m.Propagates := by
  rw [h.classes_eq] at hm
  exact ClassTable.forall_declared (fun b d hd => (b.methods_plain d hd).propagates)
    (fun b d hd => (b.constructors_plain d hd).propagates) h.methods hm

/-! ## Runs -/

/-- The events of every run nest inside the expression that it is a part of. -/
theorem Evaluation.run_nests {host : Host} {classes : Array HostClass}
    (h : host.Propagates classes) (depth : Nat) (t : Task α) :
    (run host depth t).Nests True :=
  run_composed (nests_composition host)
    (fun hd => ⟨hd, fun self args hm => method_run_nests hd (h.declared hm) self args⟩) depth t

/-- An outcome after events that nest, or of which a fault has cut off the end. -/
def Outcome.EventsNest (w : World) : Outcome α → Prop
  | .value _ u => ∃ es, u.log = es.reverse ++ w.log ∧ Nested es
  | .fault _ u => ∃ es, u.log = es.reverse ++ w.log ∧ ∃ rest, Nested (es ++ rest)
  | .exhausted => True

/-- What needs no open expression nests by itself. -/
theorem Outcome.Nests.eventsNest {w : World} {o : Outcome α} (h : o.Nests False w) :
    o.EventsNest w := by
  cases h with
  | value a hu =>
    obtain ⟨-, es, hlog, hopen⟩ := hu
    exact ⟨es, hlog, hopen [] False.elim⟩
  | fault e hu =>
    obtain ⟨-, es, hlog, hopen⟩ := hu
    obtain ⟨new, hnew⟩ := hopen [] False.elim
    refine ⟨es, hlog, (new ++ []).map .after, ?_⟩
    rw [Nested, openAfter_append, hnew, Option.bind_some, openAfter_ends]
  | exhausted => trivial

/-- Listener brackets: where no listener objects and the methods of the host propagate errors, the events
of reading a value, of writing one and of calling a method nest. -/
theorem events_nest {host : Host} {classes : Array HostClass} (hhost : host.Propagates classes)
    (depth : Nat) {w : World} (hw : w.context.Quiet) :
    (∀ e : ValueExpr, (e.read host (Evaluation.run host depth) w).EventsNest w) ∧
      (∀ (e : ValueExpr) (t : TypeRef),
        (e.readAs host (Evaluation.run host depth) t w).EventsNest w) ∧
      (∀ (e : ValueExpr) (v : Value), (e.write (Evaluation.run host depth) v w).EventsNest w) ∧
      ∀ (m : MethodExpr) (args : List Value),
        (m.invoke host (Evaluation.run host depth) args w).EventsNest w := by
  have hrun {β : Type} (t : Task β) := Evaluation.run_nests hhost depth t
  refine ⟨fun e => ?_, fun e t => ?_, fun e v => ?_, fun m args => ?_⟩
  · refine Outcome.Nests.eventsNest ?_
    cases e with
    | parsed text node bound expected =>
      exact bracketed_nests text ((hrun _).bind fun v => convertTo?_nests v expected) w hw
    | literal v expected => exact convertTo?_nests v expected w hw
  · refine Outcome.Nests.eventsNest ?_
    cases e with
    | parsed text node bound expected =>
      exact (bracketed_nests text (hrun _)).bind (fun v => convert_nests v t) w hw
    | literal v expected => exact convert_nests v t w hw
  · refine Outcome.Nests.eventsNest ?_
    cases e with
    | parsed text node bound expected => exact bracketed_nests text (hrun _) w hw
    | literal x expected => exact .fault _ (World.Whole.refl hw).cut
  · refine Outcome.Nests.eventsNest ?_
    cases m with
    | parsed text node bound returns params => exact bracketed_nests text (hrun _) w hw
    | plain text returns params =>
      have hplain : ((pure (.text text) : Action Value) w).Nests False w :=
        Action.nests_of_keeps (.pure _) w hw
      rcases returns with _ | t
      · exact hplain
      · cases t with
        | void => exact hplain
        | _ => exact convert_nests _ _ w hw

/-- A constructor that reads an expression. -/
def askingConstructor : Declaration where
  name := constructorName
  isStatic := true
  body := some fun _ _ => .evaluate "$\x7b1\x7d" .conclude

def askingClass : HostClass where
  shape := ⟨"Kit", .plain, some (.builtin .object), [], none⟩
  members := .declare (.host 0) [] [askingConstructor] [] []

def askingHost : Host := ⟨.ofHost #[askingClass], fun _ {_} q => pure q.neutral⟩

theorem askingHost_propagates : askingHost.Propagates #[askingClass] where
  classes_eq := rfl
  methods c hc m hm := by
    rw [List.mem_singleton.mp (Array.mem_toList_iff.mpr hc)] at hm
    rcases hm with hm | hm
    · exact (List.not_mem_nil hm).elim
    · rw [List.mem_singleton.mp hm]
      rintro code ⟨⟩ self args
      exact ⟨fun v => trivial, fun e => ⟨_, rfl⟩⟩

/-- A world with a listener, in which the class is imported. -/
def heardWorld : World :=
  ⟨⟨askingHost.classes.lineage, #[]⟩,
    { Context.standard false false with
      imports := { Imports.none with classes := [("Kit", .host 0)] }
      listeners := [⟨some "listener", fun _ => none⟩] }, []⟩

/-- The call of the constructor. -/
def askingCall : ValueExpr := .parsed "$\x7bKit()\x7d" (.call "" "Kit" [[]]) .empty none

theorem heardWorld_quiet : heardWorld.context.Quiet where
  layout := ⟨false, rfl⟩
  listeners := List.forall_mem_singleton.mpr fun _ => rfl

/-- The events of a call that reads another expression. -/
theorem asked_events_nest :
    askingHost.Propagates #[askingClass] ∧ heardWorld.context.Quiet ∧
      (askingCall.read askingHost (Evaluation.evaluator askingHost) heardWorld).EventsNest
        heardWorld ∧
      (askingCall.read askingHost (Evaluation.evaluator askingHost) heardWorld).final?.map World.log =
        some [.after "$\x7bKit()\x7d", .after "$\x7b1\x7d", .before "$\x7b1\x7d",
          .resolved "Class" "<init>", .before "$\x7bKit()\x7d"] :=
  ⟨askingHost_propagates, heardWorld_quiet,
    (events_nest askingHost_propagates Evaluation.depthLimit heardWorld_quiet).1 _,
    by decide +kernel⟩

end ExprLang
