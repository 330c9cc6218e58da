import ExprLang.Proofs.Builtin.Rooted
import ExprLang.Proofs.Evaluation.AgreeingRun
import ExprLang.Proofs.Parser.Depth
import ExprLang.Proofs.Template

/-! Calls of functions are checked once, when an expression is built. This is enough: every tree that
runs later is part of one that was checked, and runs with the very functions that it was checked
against. So what happens at a call whose function is missing or takes another number of arguments makes
no difference to any evaluation. -/

namespace ExprLang

variable {t : ClassTable} {source b c : Bound} {ns name : String}

/-! ## The check -/

/-- The name stands for a function that takes so many arguments, or for none and has no prefix. -/
def Bound.Serves (t : ClassTable) (b : Bound) (ns name : String) (given : Nat) : Prop :=
  match b.method? t ns name with
  | some m => m.acceptsCount given = true
  | none => ns.isEmpty = true

theorem Method.checkCount_ok_iff {m : Method} {key : String} {given : Nat} :
    m.checkCount key given = .ok () ↔ m.acceptsCount given = true := by
  unfold checkCount
  split
  · next h => exact iff_of_true rfl h
  · next h => exact iff_of_false nofun h

theorem Bound.captureNode_serves {calls : List (List Node)}
    (h : captureNode t source b (.call ns name calls) = .ok c) :
    source.Serves t ns name (calls.headD []).length := by
  unfold Serves
  simp only [captureNode] at h
  cases hm : source.method? t ns name with
  | some m =>
    obtain ⟨id, hid, -⟩ := Option.bind_eq_some_iff.mp hm
    rw [hid, hm] at h
    obtain ⟨_, hcount, -⟩ := ok_of_bind h
    exact Method.checkCount_ok_iff.mp hcount
  | none =>
    rw [hm] at h
    by_cases hns : ns.isEmpty = true
    · exact hns
    · simp [hns] at h

/-- All calls in a tree passed the check, with the functions that the tree took with it. -/
theorem Bound.capture_serves {root : Node} {calls : List (List Node)}
    (h : capture t source root = .ok b) (hcall : .call ns name calls ∈ root.parts) :
    b.Serves t ns name (calls.headD []).length := by
  unfold Serves
  rw [(capture_agree h).function ns name calls hcall]
  suffices hfold : ∀ (ps : List Node) (c : Bound), .call ns name calls ∈ ps →
      ps.foldlM (captureNode t source) c = .ok b →
      source.Serves t ns name (calls.headD []).length from hfold root.parts empty hcall h
  intro ps
  induction ps with
  | nil => exact nofun
  | cons n ps ih =>
    intro c hmem hfold
    rw [List.foldlM_cons] at hfold
    obtain ⟨d, hn, hps⟩ := ok_of_bind hfold
    rcases List.mem_cons.mp hmem with rfl | hmem
    · exact captureNode_serves hn
    · exact ih d hmem hps

/-- The trees that were checked, with what was taken for them from some context. -/
def Checked (t : ClassTable) : Origin :=
  .ofRoots fun b root => ∃ source, Bound.capture t source root = .ok b

theorem checked_admits (t : ClassTable) : (Checked t).Admits t where
  root _ h := ⟨_, h⟩
  target _ _ _ := trivial

theorem Bound.Rooted.serves {ps : List Node} {calls : List (List Node)}
    (hb : b.Rooted (Checked t) ps) (hcall : .call ns name calls ∈ ps) :
    b.Serves t ns name (calls.headD []).length := by
  obtain ⟨root, ⟨_, hcapture⟩, hsub⟩ := hb.root
  exact capture_serves hcapture (hsub hcall)

namespace Evaluation

variable {host : Host} {handle : Handler}

/-! ## Calls that are refused -/

/-- A call that goes on with `breach` where the function is missing or takes another number of
arguments. -/
def callOr (breach : Fault → Action Value) (host : Host) (handle : Handler) (b : Bound)
    (ns name : String) (calls : List (List Node)) : Action Value :=
  let key := Bound.functionKey ns name
  match calls with
  | [] => Action.fail (.noArgumentList key)
  | first :: rest =>
    match b.method? host.classes ns name with
    | some m => do
      let vs ← evalAll handle b first
      match m.checkCount key vs.length with
      | .ok _ => do
        let v ← m.invoke host handle .null vs
        callChain handle b key v rest
      | .error e => breach e
    | none =>
      if !ns.isEmpty then breach (.unmappedFunction key)
      else do
        match ← findValue host handle b name with
        | some (.lambda f) => callChain handle b key (.lambda f) calls
        | _ => callImported host handle b name first rest

/-- The step of the evaluator, apart from refused calls. -/
def stepOr (breach : Fault → Action Value) (host : Host) (handle : Handler) :
    {α : Type} → Task α → Action α
  | _, .eval b (.call ns name calls) => callOr breach host handle b ns name calls
  | _, task => step host handle task

/-- Carries out tasks as the evaluator does, apart from refused calls. -/
def runOr (breach : Fault → Action Value) (host : Host) (depth : Nat) : Handler :=
  runWith (stepOr breach host) depth

theorem callOr_fail (calls : List (List Node)) :
    callOr Action.fail host handle b ns name calls = call host handle b ns name calls := by
  unfold callOr call
  cases calls with
  | nil => rfl
  | cons first rest =>
    cases b.method? host.classes ns name with
    | none => rfl
    | some m =>
      refine congrArg (evalAll handle b first >>= ·) (funext fun vs => ?_)
      dsimp only
      cases m.checkCount (Bound.functionKey ns name) vs.length <;> rfl

/-- The evaluator is what fails at refused calls. -/
theorem runOr_fail (host : Host) (depth : Nat) :
    @runOr Action.fail host depth = @run host depth := by
  induction depth with
  | zero => rfl
  | succ depth ih =>
    funext α task
    show stepOr Action.fail host (runOr Action.fail host depth) task = step host (run host depth) task
    rw [ih]
    cases task with
    | eval b n =>
      cases n with
      | call ns name calls => exact callOr_fail calls
      | _ => rfl
    | _ => rfl

theorem evalAll_length {ns : List Node} {w u : World} {vs : List Value}
    (h : evalAll handle b ns w = .value vs u) : vs.length = ns.length := by
  induction ns generalizing w vs with
  | nil =>
    cases h
    rfl
  | cons n ns ih =>
    obtain ⟨v, w₁, -, h⟩ := Action.bind_eq_value.mp h
    obtain ⟨rest, w₂, hrest, h⟩ := Action.bind_eq_value.mp h
    cases h
    exact congrArg (· + 1) (ih hrest)

variable {breach : Fault → Action Value}

/-- A call that passed the check is not refused. -/
theorem callOr_eq_call {calls : List (List Node)}
    (h : b.Serves host.classes ns name (calls.headD []).length) :
    callOr breach host handle b ns name calls = call host handle b ns name calls := by
  rw [← callOr_fail]
  unfold callOr
  unfold Bound.Serves at h
  cases calls with
  | nil => rfl
  | cons first rest =>
    cases hm : b.method? host.classes ns name with
    | none =>
      rw [hm] at h
      simp only [h]
      rfl
    | some m =>
      rw [hm] at h
      funext w
      cases hvs : evalAll handle b first w with
      | value vs u =>
        have hcount : m.checkCount (Bound.functionKey ns name) vs.length = .ok () := by
          rw [evalAll_length hvs]
          exact Method.checkCount_ok_iff.mpr h
        simp only [Action.bind_value hvs, hcount]
      | fault e u => simp only [Action.bind_fault hvs]
      | exhausted => simp only [Action.bind_exhausted hvs]

/-- Where nothing was checked, calls are refused. -/
example (breach : Fault → Action Value) :
    runOr breach .bare 1 (.eval .empty (.call "n" "f" [[]])) = breach (.unmappedFunction "n:f") := rfl

theorem stepOr_follows (breach : Fault → Action Value) (host : Host) :
    Stepper.Follows (Checked host.classes) host (stepOr breach host) := by
  intro handle α task htask
  cases task with
  | eval b n =>
    cases n with
    | call ns name calls =>
      have hb : b.Rooted (Checked host.classes) (Node.call ns name calls).parts := htask
      exact callOr_eq_call (hb.serves (Node.mem_parts_self _))
    | _ => rfl
  | _ => rfl

end Evaluation

/-! ## Evaluations -/

namespace Evaluation

/-- Whatever a factory builds where all trees were checked was checked. Whatever is done there ends the
same whatever happens at refused calls, and leaves only trees that were checked. The functions in sight
make no difference; the host has to bring only trees that were checked. -/
theorem refused_calls_unreached {host : Host} {classes : Array HostClass}
    (hh : host.Careful (Checked host.classes) classes) {f : Factory} (hf : f.Reached) {w : World}
    (hw : w.Rooted (Checked host.classes)) {α : Type} {o : Operation α}
    (ho : o.Rooted (Checked host.classes)) (breach : Fault → Action Value) (depth : Nat) :
    (∀ text expected, ResultIn (ValueExpr.Rooted (Checked host.classes))
      (Factory.valueExpression host.classes w.context text expected f).1) ∧
    (∀ text returns params, ResultIn (MethodExpr.Rooted (Checked host.classes))
      (Factory.methodExpression host.classes w.context text returns params f).1) ∧
    o.perform host (run host depth) w = o.perform host (runOr breach host depth) w ∧
    (o.perform host (run host depth) w).Rooted (Checked host.classes) fun a =>
      ∀ v ∈ o.values a, v.Rooted (Checked host.classes) := by
  have horigin : (Checked host.classes).Admits host.classes := checked_admits _
  have hruns : Handler.Agrees _ (run host depth) (runOr breach host depth) :=
    run_agrees hh.preserves horigin (stepOr_follows breach host) depth
  exact ⟨fun text expected => Factory.valueExpression_rooted hf horigin hw.context text expected,
    fun text returns params =>
      Factory.methodExpression_rooted hf horigin hw.context text returns params,
    Operation.perform_agrees ⟨hh.preserves, horigin, hruns⟩ ho w hw⟩

/-! ### A function that has another meaning later -/

/-- The greater of two integers. -/
def greater : MethodId := ⟨.builtin .math, false, 4⟩

/-- The size of an integer. -/
def size : MethodId := ⟨.builtin .math, false, 1⟩

/-- A world in which a function of this name is in sight. -/
def withFunction (key : String) (id : MethodId) : World :=
  let w := World.fresh .bare .none
  { w with context := { w.context with functions := [(key, id)] } }

theorem withFunction_rooted (key : String) (id : MethodId) (O : Origin) :
    (withFunction key id).Rooted O where
  heap _ hc := (Array.not_mem_empty _ hc).elim
  context := by
    refine ⟨nofun, fun i => ?_, nofun⟩
    cases i with
    | zero => exact nofun
    | succ i => exact nofun

theorem parse_size : parseTemplate "$\x7b(x -> n:abs(x))(-5)\x7d" =
    .ok (.lambda ["x"] (.call "n" "abs" [[.name "x"]]) [[.unary .neg (.integer "5")]]) :=
  parseTemplate_segment .dynamic "(x -> n:abs(x))(-5)" (parseExpression_of_toOption (by decide +kernel))

/-- The expression of this text, with the function that it mentions. -/
def sizeCall : ValueExpr :=
  .parsed "$\x7b(x -> n:abs(x))(-5)\x7d"
    (.lambda ["x"] (.call "n" "abs" [[.name "x"]]) [[.unary .neg (.integer "5")]])
    (.mk [("n:abs", size)] []) none

/-- The body of a lambda calls the function that its name meant when it was built, though the name now
means a function of two arguments. -/
theorem lambda_keeps_function : ∃ e,
    (Factory.valueExpression Host.bare.classes (withFunction "n:abs" size).context
      "$\x7b(x -> n:abs(x))(-5)\x7d" none (.ofCapacity 1)).1 = .ok e ∧
    ∃ u, ∀ breach, (Operation.read e).perform .bare (runOr breach .bare 4)
      (withFunction "n:abs" greater) = .value (.long 5) u := by
  obtain ⟨f, hf, -⟩ := (Factory.Reached.start 1).parse_ok parse_size
  have hbuilt : (Factory.valueExpression Host.bare.classes (withFunction "n:abs" size).context
      "$\x7b(x -> n:abs(x))(-5)\x7d" none (.ofCapacity 1)).1 = .ok sizeCall := by
    rw [Factory.valueExpression, Building.bind_of_ok hf]
    rfl
  have he := (refused_calls_unreached (Host.careful_bare _) (.start 1)
    (withFunction_rooted "n:abs" size _) (o := .read (.literal .null none))
    (.literal Value.rooted_null) Action.fail 0).1 _ _ _ hbuilt
  have hrun : ∃ u, (Operation.read sizeCall).perform .bare (run .bare 4)
      (withFunction "n:abs" greater) = .value (.long 5) u := ⟨_, rfl⟩
  obtain ⟨u, hu⟩ := hrun
  refine ⟨sizeCall, hbuilt, u, fun breach => ?_⟩
  rw [← (refused_calls_unreached (Host.careful_bare _) (.start 1)
    (withFunction_rooted "n:abs" greater _) (o := .read sizeCall) he breach 4).2.2.1]
  exact hu

end Evaluation

end ExprLang
