import ExprLang.Proofs.Evaluation.Calling
import ExprLang.Proofs.Evaluation.Snapshot
import ExprLang.Proofs.Heap.Equality

/-! Lambdas with the same parameters and the same body, which strict equality does not tell apart
whatever they took with them, when they do the same, and lambdas that are called in turn. -/

namespace ExprLang

theorem Value.alike_option {t : ClassTable} : ∀ a : Option Value, Option.Rel (Value.Alike t) a a
  | none => .none
  | some v => .some (.same v)

namespace Closure

variable {t : ClassTable} {f g : Closure} {args : List Value} {name : String}

/-- The lambdas took the same arguments with them, but for those that their parameters hide. -/
def CapturedAlike (t : ClassTable) (f g : Closure) : Prop :=
  ∀ name, name ∉ f.params →
    Option.Rel (Value.Alike t) (f.captured.find? name) (g.captured.find? name)

/-- The lambdas do the same, whatever the arguments, and wherever they are called. -/
def ActAlike (host : Host) (f g : Closure) : Prop :=
  ∀ (depth : Nat) (args : List Value) (w : World),
    Outcome.Alike host.classes (Value.Alike host.classes)
      (f.invoke (Evaluation.run host depth) args w) (g.invoke (Evaluation.run host depth) args w)

/-- Strict equality of lambdas reads their parameters and their bodies only. -/
theorem equal_lambda_iff {h : Heap} :
    h.equal (.lambda f) (.lambda g) = true ↔ f.params = g.params ∧ f.body = g.body :=
  same_iff

/-- The parameters with their arguments; missing ones are null. -/
def passed (f : Closure) (args : List Value) : Bindings Value :=
  f.params.zipIdx.map fun p => (p.1, args.getD p.2 .null)

theorem scope_eq (f : Closure) (args : List Value) :
    f.scope args = f.captured.override (f.passed args) := by
  rw [scope, Bindings.override, passed, List.foldl_map]

theorem find?_passed : (f.passed args).find? name = none ↔ name ∉ f.params := by
  have hnames : (f.passed args).names = f.params := by
    rw [Bindings.names, passed, List.map_map]
    exact List.zipIdx_map_fst 0 f.params
  rw [Bindings.find?_eq_none_iff, hnames]

/-- The bodies run in scopes that are alike. -/
theorem CapturedAlike.scope (h : CapturedAlike t f g) (hparams : f.params = g.params)
    (hf : f.captured.Ordered) (hg : g.captured.Ordered) (args : List Value) :
    Bindings.Rel (Value.Alike t) (f.scope args) (g.scope args) := by
  have hpassed : f.passed args = g.passed args := by rw [passed, passed, hparams]
  rw [scope_eq, scope_eq, ← hpassed]
  refine .of_find? (hf.override _) (hg.override _) fun name => ?_
  refine Bindings.find?_override_rel (fun a => ?_) fun hnone => h name (find?_passed.mp hnone)
  exact Value.alike_option a

/-- What a lambda took with it is in the scope of its body, under all names but those of parameters. -/
theorem find?_arguments_scope (hf : f.captured.Ordered) (hname : name ∉ f.params) :
    (Stack.arguments [f.scope args]).find? name = f.captured.find? name := by
  have hscope : (f.scope args).Ordered := scope_eq f args ▸ hf.override _
  have hstack : Stack.Distinct [f.scope args] :=
    List.forall_mem_singleton.mpr hscope.distinct
  have hargument : Stack.argument? [f.scope args] name = (f.scope args).find? name := by
    rw [Stack.argument?_cons]
    exact Option.or_none
  rw [Stack.find?_arguments hstack, hargument, scope_eq]
  exact Bindings.find?_override_of_none (find?_passed.mpr hname)

end Closure

namespace Evaluation

variable {host : Host} {f g : Closure}

theorem actAlike_of_captured (hb : host.Blind) (hparams : f.params = g.params)
    (hbody : f.body = g.body) (hf : f.captured.Ordered) (hg : g.captured.Ordered)
    (hcaptured : Closure.CapturedAlike host.classes f g)
    (hbound : Bound.Agree host.classes f.body.parts f.bound g.bound) :
    Closure.ActAlike host f g := by
  intro depth args w
  have hscope := hcaptured.scope hparams hf hg args
  have heval := run_respects hb depth (.eval hbound)
  rw [Closure.invoke, Closure.invoke, ← hbody]
  exact withScope_sim hscope heval w w (.refl _ w)

/-- A body that gives a lambda shows what its own lambda took along. -/
theorem captured_of_actAlike (hparams : f.params = g.params) (hf : f.captured.Ordered)
    (hg : g.captured.Ordered)
    (h : Closure.ActAlike host (f.withBody (.lambda [] .null [])) (g.withBody (.lambda [] .null []))) :
    Closure.CapturedAlike host.classes f g := by
  intro name hname
  let w : World := ⟨⟨host.classes.lineage, #[]⟩, { layout := .standard [] false }, []⟩
  have hcall := h 1 [] (w.onStack [])
  rw [invoke_capturing, invoke_capturing] at hcall
  have hvalue : Value.Alike host.classes
      (.lambda (.mk [] .null f.bound (Stack.arguments [f.scope []])))
      (.lambda (.mk [] .null g.bound (Stack.arguments [g.scope []]))) := by
    cases hcall with
    | value hvalue _ => exact hvalue
  have hfound := hvalue.captured.find? name
  rwa [Closure.captured, Closure.captured, Closure.find?_arguments_scope hf hname,
    Closure.find?_arguments_scope hg (hparams ▸ hname)] at hfound

/-- Lambdas that are strictly equal do the same, whatever the arguments, and wherever they are called,
if they took the same arguments with them, but for those that their parameters hide, and if their
functions and variables agree on what the body mentions. For no less they would do the same with every
body. -/
theorem equal_lambdas_act_alike (hb : host.Blind) {h : Heap}
    (heq : h.equal (.lambda f) (.lambda g) = true) (hf : f.captured.Ordered)
    (hg : g.captured.Ordered) :
    (Closure.CapturedAlike host.classes f g →
      Bound.Agree host.classes f.body.parts f.bound g.bound → Closure.ActAlike host f g) ∧
    ((∀ body, Closure.ActAlike host (f.withBody body) (g.withBody body)) →
      Closure.CapturedAlike host.classes f g) := by
  obtain ⟨hparams, hbody⟩ := Closure.equal_lambda_iff.mp heq
  exact ⟨actAlike_of_captured hb hparams hbody hf hg, fun hact =>
    captured_of_actAlike hparams hf hg (hact _)⟩

/-- What a lambda took along under the name of its parameter, and a variable that its body does not
mention, make no difference. -/
theorem hidden_argument_acts_alike :
    (World.fresh .bare .none).heap.equal
        (.lambda (.mk ["x"] (.name "y") .empty [("x", .long 1), ("y", .long 2)]))
        (.lambda (.mk ["x"] (.name "y") (.mk [] [("z", .literal .null none)]) [("y", .long 2)])) =
          true ∧
      Closure.ActAlike .bare
        (.mk ["x"] (.name "y") .empty [("x", .long 1), ("y", .long 2)])
        (.mk ["x"] (.name "y") (.mk [] [("z", .literal .null none)]) [("y", .long 2)]) := by
  have hequal : (World.fresh .bare .none).heap.equal
      (.lambda (.mk ["x"] (.name "y") .empty [("x", .long 1), ("y", .long 2)]))
      (.lambda (.mk ["x"] (.name "y") (.mk [] [("z", .literal .null none)]) [("y", .long 2)])) =
        true := Closure.equal_lambda_iff.mpr ⟨rfl, rfl⟩
  have hf : Bindings.Ordered [("x", Value.long 1), ("y", .long 2)] := by
    have hxy : "x" < "y" := by decide
    exact List.pairwise_pair.mpr hxy
  have hg : Bindings.Ordered [("y", Value.long 2)] := List.pairwise_singleton _ _
  refine ⟨hequal, (equal_lambdas_act_alike discreet_bare.blind hequal hf hg).1 ?_ ?_⟩
  · intro name hname
    have hx : "x" ≠ name := fun h => hname (h ▸ List.mem_cons_self)
    rw [Closure.captured, Closure.captured, Bindings.find?_tail hx]
    exact Value.alike_option _
  · have hbody : (Closure.mk ["x"] (.name "y") .empty [("x", .long 1), ("y", .long 2)]).body.parts =
        [.name "y"] := rfl
    rw [hbody]
    refine ⟨fun x hx => ?_, fun ns x calls hc => ?_, fun ns x calls hc => ?_⟩
    · cases List.mem_singleton.mp hx
      rfl
    · cases List.mem_singleton.mp hc
    · cases List.mem_singleton.mp hc

/-- The lambda that makes of its argument a lambda that gives it. -/
def constantly : Closure := .mk ["x"] (.lambda [] (.name "x") []) .empty []

/-- The lambdas that give one and two are strictly equal, whether they took the number along or find it
as a variable. In a set only the first of two such lambdas is left. -/
theorem constants_not_alike :
    (∀ v ∈ [Value.long 1, .long 2], constantly.invoke (run .bare 3) [v] (World.fresh .bare .none) =
      .value (.lambda (.mk [] (.name "x") .empty [("x", v)])) (World.fresh .bare .none)) ∧
      (World.fresh .bare .none).heap.distinct
          [.lambda (.mk [] (.name "x") .empty [("x", .long 1)]),
            .lambda (.mk [] (.name "x") .empty [("x", .long 2)])] =
        [.lambda (.mk [] (.name "x") .empty [("x", .long 1)])] ∧
      (∀ v ∈ [Value.long 1, .long 2],
        (Closure.mk [] (.name "x") .empty [("x", v)]).invoke (run .bare 3) []
            (World.fresh .bare .none) = .value v (World.fresh .bare .none)) ∧
      ¬Closure.ActAlike .bare (.mk [] (.name "x") .empty [("x", .long 1)])
        (.mk [] (.name "x") .empty [("x", .long 2)]) ∧
      ¬Closure.ActAlike .bare (.mk [] (.name "x") (.mk [] [("x", .literal (.long 1) none)]) [])
        (.mk [] (.name "x") (.mk [] [("x", .literal (.long 2) none)]) []) := by
  have hcaptured : ∀ v : Value, (Closure.mk [] (.name "x") .empty [("x", v)]).invoke (run .bare 3) []
      (World.fresh .bare .none) = .value v (World.fresh .bare .none) := fun v => rfl
  have hvariable : ∀ v : Value, (Closure.mk [] (.name "x") (.mk [] [("x", .literal v none)]) []).invoke
      (run .bare 3) [] (World.fresh .bare .none) = .value v (World.fresh .bare .none) := fun v => rfl
  have hequal : (World.fresh .bare .none).heap.equal
      (.lambda (.mk [] (.name "x") .empty [("x", .long 1)]))
      (.lambda (.mk [] (.name "x") .empty [("x", .long 2)])) = true :=
    Closure.equal_lambda_iff.mpr ⟨rfl, rfl⟩
  refine ⟨fun v _ => rfl, ?_, fun v _ => hcaptured v, fun h => ?_, fun h => ?_⟩
  · simp [Heap.distinct, Heap.holds, hequal]
  · have hsame := h 3 [] (World.fresh .bare .none)
    rw [hcaptured, hcaptured] at hsame
    cases hsame with
    | value hvalue _ => cases hvalue
  · have hsame := h 3 [] (World.fresh .bare .none)
    rw [hvariable, hvariable] at hsame
    cases hsame with
    | value hvalue _ => cases hvalue

end Evaluation

/-! ## Currying

A lambda of several parameters, called once, and lambdas of one parameter each, called one after the other,
run their body in the same scope. -/

/-- The lambda of the first name that gives the lambda of the next one, and so on to the body. -/
def Node.curry : List String → Node → Node
  | [], body => body
  | p :: ps, body => .lambda [p] (curry ps body) []

/-- Lambdas inside one another, called with one argument each: `(p -> (q -> body))(a)(b)`. -/
def Node.calledInTurn (first : String × Node) (rest : List (String × Node)) (body : Node) : Node :=
  .lambda [first.1] (curry (rest.map (·.1)) body) ([first.2] :: rest.map fun e => [e.2])

/-- One lambda, called with all arguments: `((p, q) -> body)(a, b)`. -/
def Node.calledAtOnce (first : String × Node) (rest : List (String × Node)) (body : Node) : Node :=
  .lambda (first.1 :: rest.map (·.1)) body [first.2 :: rest.map (·.2)]

/-- Bindings of all names that the others bind take the place of those. -/
theorem Bindings.override_of_bound {α : Type} {b c : Bindings α} (hb : b.Ordered) (hc : c.Ordered)
    (h : ∀ name, c.find? name = none → b.find? name = none) : b.override c = c := by
  refine eq_of_find? (hb.override c) hc fun name => ?_
  rw [find?_override hc.distinct]
  cases hname : c.find? name with
  | some a => rfl
  | none => exact h name hname

namespace Closure

variable {name : String} {names : List String} {body : Node} {b : Bound} {c : Bindings Value}

/-- The scope of a call is made parameter by parameter. -/
theorem scope_cons (v : Value) (vs : List Value) :
    (Closure.mk (name :: names) body b c).scope (v :: vs) =
      (Closure.mk names body b (c.insert name v)).scope vs := by
  have hrest : names.zipIdx 1 = names.zipIdx.map fun p => (p.1, p.2 + 1) := List.zipIdx_succ ..
  simp only [scope, params, captured, List.zipIdx_cons, List.foldl_cons, hrest, List.foldl_map]
  rfl

end Closure

namespace Evaluation

variable {host : Host} {b : Bound} {names : List String} {body : Node} {key : String}

/-- A scope that binds all names in sight is what a lambda inside takes with it. -/
theorem invoke_giving_lambda (depth : Nat) (name : String) {c : Bindings Value} (hc : c.Ordered)
    (v : Value) {w : World}
    (hbound : ∀ n, c.find? n = none → w.context.arguments.find? n = none) :
    (Closure.mk [name] (.lambda names body []) b c).invoke (run host (depth + 1)) [v] w =
      .value (.lambda (.mk names body b (c.insert name v))) w := by
  have hall : Stack.arguments (c.insert name v :: w.context.scopes) = c.insert name v := by
    refine Bindings.override_of_bound (Stack.ordered_arguments _) (hc.insert name v) fun n hn => ?_
    rw [Bindings.find?_insert] at hn
    split at hn
    · cases hn
    · exact hbound n hn
  have hmade : (Closure.mk [name] (.lambda names body []) b c).invoke (run host (depth + 1)) [v] w =
      .value (.lambda (.mk names body b (Stack.arguments (c.insert name v :: w.context.scopes)))) w :=
    rfl
  rw [hmade, hall]

theorem callChain_lambda (handle : Handler) (f : Closure) (args : List Node)
    (rest : List (List Node)) :
    callChain handle b key (.lambda f) (args :: rest) =
      evalAll handle b args >>= fun vs => f.invoke handle vs >>= fun w =>
        callChain handle b key w rest :=
  rfl

theorem evalAll_single (handle : Handler) (n : Node) :
    evalAll handle b [n] = handle (.eval b n) >>= fun v => pure [v] := by
  simp only [evalAll, pure_bind]

/-- Lambdas called in turn run the body in the scope of a single call. The scopes on the way take along
all arguments in sight, since the first of them has these. -/
theorem callChain_curried (hr : host.Keeps World.scopes) (depth : Nat)
    (rest : List (String × Node)) (first : String × Node) {c : Bindings Value} (hc : c.Ordered)
    {w : World} (hbound : ∀ n, c.find? n = none → w.context.arguments.find? n = none) :
    callChain (run host (depth + 1)) b key
        (.lambda (.mk [first.1] (.curry (rest.map (·.1)) body) b c))
        ([first.2] :: rest.map fun e => [e.2]) w =
      (evalAll (run host (depth + 1)) b (first.2 :: rest.map (·.2)) >>=
        (Closure.mk (first.1 :: rest.map (·.1)) body b c).invoke (run host (depth + 1))) w := by
  induction rest generalizing first c w with
  | nil =>
    rw [callChain_lambda]
    simp only [List.map_nil, callChain, Node.curry, bind_pure]
  | cons second more ih =>
    rw [callChain_lambda, evalAll_single, bind_assoc, evalAll, bind_assoc]
    cases hfirst : run host (depth + 1) (.eval b first.2) w with
    | fault e u => rw [Action.bind_fault hfirst, Action.bind_fault hfirst]
    | exhausted => rw [Action.bind_exhausted hfirst, Action.bind_exhausted hfirst]
    | value v u =>
      have hscopes : u.context.scopes = w.context.scopes :=
        run_keeps scopes_apart hr (depth + 1) _ w u (by rw [hfirst]; rfl)
      have harguments : u.context.arguments = w.context.arguments := by
        unfold Context.arguments
        rw [hscopes]
      rw [Action.bind_value hfirst, Action.bind_value hfirst, pure_bind]
      have hinner : (Closure.mk [first.1] (.lambda [second.1] (.curry (more.map (·.1)) body) []) b
          c).invoke (run host (depth + 1)) [v] u =
          .value (.lambda (.mk [second.1] (.curry (more.map (·.1)) body) b (c.insert first.1 v))) u :=
        invoke_giving_lambda depth first.1 hc v (harguments ▸ hbound)
      rw [List.map_cons, Node.curry, Action.bind_value hinner, List.map_cons]
      rw [ih second (hc.insert first.1 v) fun n hn => ?_]
      · simp only [bind_assoc, pure_bind, Closure.invoke, List.map_cons, Closure.scope_cons]
        rfl
      · rw [harguments]
        rw [Bindings.find?_insert] at hn
        split at hn
        · cases hn
        · exact hbound n hn

/-- Currying: lambdas of one parameter each, one inside the other and called in turn, do what the lambda
of all these parameters does that is called once, at every depth and in every world: they end in the same
value or fault, and leave the same world. Parameters of the same name hide each other alike. -/
theorem curried_call_eq (hr : host.Keeps World.scopes) (depth : Nat) (b : Bound)
    (first : String × Node) (rest : List (String × Node)) (body : Node) :
    run host depth (.eval b (.calledInTurn first rest body)) =
      run host depth (.eval b (.calledAtOnce first rest body)) := by
  funext w
  match depth with
  | 0 => rfl
  | 1 =>
    -- Already the first argument nests too deeply.
    rfl
  | depth + 2 =>
    show callChain _ _ _ (.lambda (.mk _ _ _ (Stack.arguments w.context.scopes))) _ w =
      callChain _ _ _ (.lambda (.mk _ _ _ (Stack.arguments w.context.scopes))) _ w
    rw [callChain_curried hr depth rest first (Stack.ordered_arguments _) fun n hn => hn]
    simp only [callChain, bind_pure]

/-- `(x -> (x -> x))(1)(2)`: the inner parameter hides the outer one, as the later of two equal ones
does. -/
theorem hiding_parameter_curried :
    run .bare 3 (.eval .empty
        (.calledInTurn ("x", .integer "1") [("x", .integer "2")] (.name "x"))) =
      run .bare 3 (.eval .empty
        (.calledAtOnce ("x", .integer "1") [("x", .integer "2")] (.name "x"))) ∧
      ∃ u, run .bare 3 (.eval .empty
        (.calledInTurn ("x", .integer "1") [("x", .integer "2")] (.name "x")))
          (World.fresh .bare .none) = .value (.long 2) u := by
  have hr : Host.bare.Keeps World.scopes := fun _ _ => .pure _
  exact ⟨curried_call_eq hr 3 .empty ("x", .integer "1") [("x", .integer "2")] (.name "x"), _, rfl⟩

end Evaluation

end ExprLang
