import ExprLang.Proofs.Bindings
import ExprLang.Proofs.Evaluation.Steady

/-! The stack on which a lambda is called. A lambda takes the arguments with it that were in sight where
it was written, but a name that is none of those, nor a parameter, is looked up among the arguments of
whoever calls it. -/

namespace ExprLang

namespace Stack

variable {s s' : Stack} {scope : Bindings Value} {name : String}

/-- Every scope binds a name at most once. -/
def Distinct (s : Stack) : Prop := ∀ scope ∈ s, scope.Distinct

theorem ordered_arguments (s : Stack) : s.arguments.Ordered := by
  induction s with
  | nil => exact List.Pairwise.nil
  | cons scope outer ih => exact ih.override scope

theorem argument?_cons (scope : Bindings Value) (s : Stack) (name : String) :
    argument? (scope :: s) name = (scope.find? name).or (s.argument? name) := by
  unfold argument?
  rw [List.findSome?_cons]
  cases scope.find? name <;> rfl

theorem find?_arguments (hs : s.Distinct) : s.arguments.find? name = s.argument? name := by
  induction s with
  | nil => rfl
  | cons scope outer ih =>
    have houter := ih fun scope h => hs scope (List.mem_cons_of_mem _ h)
    have hscope : scope.Distinct := hs scope List.mem_cons_self
    show (Bindings.override (arguments outer) scope).find? name = _
    rw [Bindings.find?_override hscope, houter, argument?_cons]

/-- Below a scope, the same is seen exactly where both stacks have the same arguments of the names that
the scope does not bind. -/
theorem alike_cons_iff (hs : s.Distinct) (hs' : s'.Distinct) :
    Alike (scope :: s) (scope :: s') ↔
      ∀ name, scope.find? name = none → s'.argument? name = s.argument? name := by
  constructor
  · intro h name hname
    have hsame := h.argument? name
    rwa [argument?_cons, argument?_cons, hname] at hsame
  · intro h
    refine ⟨fun name => ?_, ?_⟩
    · rw [argument?_cons, argument?_cons]
      cases hname : scope.find? name with
      | some v => rfl
      | none => exact h name hname
    · refine Bindings.eq_of_find? (ordered_arguments _) (ordered_arguments _) fun name => ?_
      refine Bindings.find?_override_congr fun hname => ?_
      show (arguments s').find? name = (arguments s).find? name
      rw [find?_arguments hs, find?_arguments hs']
      exact h name hname

/-- All arguments in sight below a scope tell those of the names that it does not bind. -/
theorem argument?_of_arguments (hs : s.Distinct) (hs' : s'.Distinct)
    (h : arguments (scope :: s') = arguments (scope :: s)) (hname : scope.find? name = none) :
    s'.argument? name = s.argument? name := by
  have hsame : (Bindings.override (arguments s') scope).find? name =
      (Bindings.override (arguments s) scope).find? name := congrArg (·.find? name) h
  rwa [Bindings.find?_override_of_none hname, Bindings.find?_override_of_none hname,
    find?_arguments hs, find?_arguments hs'] at hsame

end Stack

/-! ## Evaluation on another stack -/

variable {L : Layout → Prop} {α : Type} {x : Action α} {w u u' : World} {s : Stack}

theorem World.parallel_onStack (w : World) (s : Stack) :
    Parallel w.context s [] [] w (w.onStack s) :=
  ⟨rfl, rfl, rfl, w.log, (List.append_nil _).symm, (List.append_nil _).symm⟩

theorem Parallel.eq_onStack {c : Context} (h : Parallel c s [] [] u u') : u' = u.onStack s := by
  obtain ⟨heap, context, log⟩ := u
  obtain ⟨heap', context', log'⟩ := u'
  obtain ⟨new, hlog, hlog'⟩ := h.log
  cases (show heap' = heap from h.heap)
  cases (show context' = { context with scopes := s } from h.context)
  cases (show log' = log from hlog'.trans hlog.symm)
  rfl

/-- A steady computation does the same on a stack in which the same is seen. -/
theorem Action.Steady.onStack (hx : Action.Steady L x) (hl : L w.context.layout)
    (hs : Stack.Alike w.context.scopes s) : x (w.onStack s) = (x w).after (·.onStack s) := by
  have hpair := hx w.context s [] [] hl hs w _ (w.parallel_onStack s)
  generalize x w = o, x (w.onStack s) = o' at hpair
  cases hpair with
  | value a h => rw [h.eq_onStack]; rfl
  | fault e h => rw [h.eq_onStack]; rfl
  | exhausted => rfl

/-! ## Calls -/

/-- The lambda with the same parameters and surroundings, and another body. -/
def Closure.withBody (f : Closure) (body : Node) : Closure := .mk f.params body f.bound f.captured

namespace Evaluation

variable {host : Host} {l : Layout} {f : Closure} {args : List Value} {s s' : Stack}

/-- The call of a lambda is the same on two stacks. -/
def CalledAlike (host : Host) (l : Layout) (f : Closure) (args : List Value) (s s' : Stack) : Prop :=
  ∀ (depth : Nat) (w : World), w.context.layout = l →
    f.invoke (run host depth) args (w.onStack s') =
      (f.invoke (run host depth) args (w.onStack s)).after (·.onStack s')

theorem invoke_onStack (handle : Handler) (f : Closure) (args : List Value) (w : World) (s : Stack) :
    f.invoke handle args (w.onStack s) =
      (handle (.eval f.bound f.body) (w.onStack (f.scope args :: s))).after World.popped :=
  withScope_apply _ _ _

theorem calledAlike_of_alike (hr : host.Steady (· = l))
    (h : Stack.Alike (f.scope args :: s) (f.scope args :: s')) : CalledAlike host l f args s s' := by
  intro depth w hw
  have hbody : run host depth (.eval f.bound f.body) (w.onStack (f.scope args :: s')) =
      (run host depth (.eval f.bound f.body) (w.onStack (f.scope args :: s))).after
        (·.onStack (f.scope args :: s')) :=
    (run_steady hr depth (.eval f.bound f.body)).onStack (w := w.onStack (f.scope args :: s)) hw h
  rw [invoke_onStack, invoke_onStack, hbody]
  cases run host depth (.eval f.bound f.body) (w.onStack (f.scope args :: s)) <;> rfl

/-- The body that gives a lambda tells which arguments are in sight. -/
theorem invoke_capturing (depth : Nat) (w : World) (s : Stack) :
    (f.withBody (.lambda [] .null [])).invoke (run host (depth + 1)) args (w.onStack s) =
      .value (.lambda (.mk [] .null f.bound (Stack.arguments (f.scope args :: s)))) (w.onStack s) :=
  rfl

theorem argument?_of_calledAlike (hs : s.Distinct) (hs' : s'.Distinct)
    (h : CalledAlike host l (f.withBody (.lambda [] .null [])) args s s') {name : String}
    (hname : (f.scope args).find? name = none) : s'.argument? name = s.argument? name := by
  let w : World := ⟨⟨host.classes.lineage, #[]⟩, { layout := l }, []⟩
  have hcall := h 1 w rfl
  rw [invoke_capturing, invoke_capturing] at hcall
  refine Stack.argument?_of_arguments hs hs' ?_ hname
  injection hcall with hvalue
  injection hvalue with hclosure
  injection hclosure

section Names
variable {name : String} {v : Value} (hv : Stack.argument? (f.scope args :: s) name = some v)
  (depth : Nat) (w : World)
include hv

/-- A name is the argument in sight. -/
theorem invoke_naming :
    (f.withBody (.name name)).invoke (run host (depth + 1)) args (w.onStack s) =
      .value v (w.onStack s) := by
  let u := w.onStack (f.scope args :: s)
  have hfound : findValue host (run host depth) f.bound name u = .value (some v) u := by
    unfold findValue
    rw [Action.bind_value (Action.context_apply u), show u.context.argument? name = some v from hv]
    rfl
  have hname : run host (depth + 1) (.eval f.bound (.name name)) u = .value v u := by
    show nameValue host (run host depth) f.bound name u = _
    unfold nameValue
    rw [Action.bind_value hfound]
    rfl
  rw [invoke_onStack]
  exact congrArg (·.after World.popped) hname

/-- An argument in sight cannot be assigned. -/
theorem invoke_assigning :
    (f.withBody (.assign (.name name) .null)).invoke (run host (depth + 2)) args (w.onStack s) =
      .fault (.lambdaParameter name) (w.onStack s) := by
  let u := w.onStack (f.scope args :: s)
  have hargument : u.context.isArgument name = true := by
    rw [Context.isArgument_eq, show u.context.argument? name = some v from hv]
    rfl
  have hassign : run host (depth + 1) (.assign f.bound (.name name) .null) u =
      .fault (.lambdaParameter name) u := by
    show Evaluation.assign host (run host depth) f.bound (.name name) .null u = _
    simp only [Evaluation.assign]
    rw [Action.bind_value (Action.context_apply u), if_pos hargument]
    rfl
  have heval : run host (depth + 2) (.eval f.bound (.assign (.name name) .null)) u =
      .fault (.lambdaParameter name) u := by
    show ((run host (depth + 1) (.eval f.bound .null)) >>= fun a =>
      (run host (depth + 1) (.assign f.bound (.name name) a)) >>= fun _ => pure a) u = _
    rw [Action.bind_value (show run host (depth + 1) (.eval f.bound .null) u = .value .null u from rfl),
      Action.bind_fault hassign]
  rw [invoke_onStack]
  exact congrArg (·.after World.popped) heval

end Names

/-- Whatever its body is, the call of a lambda is the same on two stacks exactly where these have the
same arguments of the names that it does not bind itself. An argument on the stack of such a name is
what the name means in the body, and cannot be assigned there. -/
theorem calledAlike_iff_arguments (hr : host.Steady (· = l)) (hs : s.Distinct) (hs' : s'.Distinct) :
    ((∀ body, CalledAlike host l (f.withBody body) args s s') ↔
      ∀ name, (f.scope args).find? name = none → s'.argument? name = s.argument? name) ∧
    ∀ name v, (f.scope args).find? name = none → s.argument? name = some v →
      ∀ (depth : Nat) (w : World),
        (f.withBody (.name name)).invoke (run host (depth + 1)) args (w.onStack s) =
            .value v (w.onStack s) ∧
          (f.withBody (.assign (.name name) .null)).invoke (run host (depth + 2)) args
              (w.onStack s) = .fault (.lambdaParameter name) (w.onStack s) := by
  refine ⟨⟨fun h name hname => ?_, fun h body => ?_⟩, fun name v hname hv depth w => ?_⟩
  · exact argument?_of_calledAlike hs hs' (h _) hname
  · exact calledAlike_of_alike hr ((Stack.alike_cons_iff hs hs').mpr h)
  · have hseen : Stack.argument? (f.scope args :: s) name = some v := by
      rw [Stack.argument?_cons, hname, hv]
      rfl
    exact ⟨invoke_naming hseen depth w, invoke_assigning hseen depth w⟩

/-- A lambda that binds `x` itself does not see the argument `x` of a caller, but sees `y`. -/
theorem bound_parameter_calledAlike :
    (∀ body, CalledAlike .bare (.standard [] false) (.mk ["x"] body .empty []) [.long 2]
        [[("y", .long 1)]] [[("x", .null), ("y", .long 1)]]) ∧
      (Closure.mk ["x"] (.name "y") .empty []).invoke (run .bare 1) [.long 2]
          ((World.fresh .bare .none).onStack [[("y", .long 1)]]) =
        .value (.long 1) ((World.fresh .bare .none).onStack [[("y", .long 1)]]) := by
  have hs : Stack.Distinct [[("y", .long 1)]] := by
    rintro scope h
    obtain rfl := List.mem_singleton.mp h
    exact List.pairwise_singleton _ _
  have hs' : Stack.Distinct [[("x", .null), ("y", .long 1)]] := by
    rintro scope h
    obtain rfl := List.mem_singleton.mp h
    show ["x", "y"].Nodup
    decide
  obtain ⟨hsame, hseen⟩ := @calledAlike_iff_arguments _ _ (.mk ["x"] .null .empty []) [.long 2] _ _
    (Host.steady_standard .bare false) hs hs'
  refine ⟨hsame.mpr fun name hname => ?_, (hseen "y" (.long 1) rfl rfl 0 _).1⟩
  have hx : "x" ≠ name := by
    rintro rfl
    cases hname
  rw [Stack.argument?_cons, Stack.argument?_cons, Bindings.find?_tail hx]

/-- The lambda that gives what `y` means where it is called. -/
def reading : Closure := .mk [] (.name "y") .empty []

/-- The lambda that sets `y`. -/
def setting : Closure := .mk [] (.assign (.name "y") (.integer "5")) .empty []

/-- A world in which the host defines `y`. -/
def definedWorld : World :=
  { World.fresh .bare .none with
    context := { (World.fresh .bare .none).context with stores := #[[("y", .long 10)]] } }

/-- Written where no argument is in sight, lambdas find an argument of the caller in the place of what
the host defines, and cannot assign to that. -/
theorem caller_argument_intrudes :
    (∃ u, reading.invoke (run .bare 3) [] (definedWorld.onStack []) = .value (.long 10) u) ∧
      (∃ u, reading.invoke (run .bare 3) [] (definedWorld.onStack [[("y", .long 1)]]) =
        .value (.long 1) u) ∧
      (∃ u, setting.invoke (run .bare 3) [] (definedWorld.onStack []) = .value (.long 5) u) ∧
      (∃ u, setting.invoke (run .bare 3) [] (definedWorld.onStack [[("y", .long 1)]]) =
        .fault (.lambdaParameter "y") u) ∧
      ¬CalledAlike .bare (.standard [] false) reading [] [] [[("y", .long 1)]] := by
  have hdefined : ∃ u,
      reading.invoke (run .bare 3) [] (definedWorld.onStack []) = .value (.long 10) u := ⟨_, rfl⟩
  have hargument : ∃ u, reading.invoke (run .bare 3) [] (definedWorld.onStack [[("y", .long 1)]]) =
      .value (.long 1) u := ⟨_, rfl⟩
  refine ⟨hdefined, hargument, ⟨_, rfl⟩, ⟨_, rfl⟩, fun h => ?_⟩
  obtain ⟨u, hu⟩ := hdefined
  obtain ⟨u', hu'⟩ := hargument
  have hcall := h 3 definedWorld rfl
  rw [hu, hu'] at hcall
  cases hcall

end Evaluation

end ExprLang
