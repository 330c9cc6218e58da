import ExprLang.Proofs.Resolution.Lockstep

/-! What a step sees of the arguments of lambdas, and steps of two handlers side by side. A step sees the
argument of one name, or all arguments where it makes a lambda, or none; all else it leaves to the tasks
inside. -/

namespace ExprLang

/-- What a task sees of the arguments before it leaves anything to others. -/
inductive Sight where
  | nothing
  | argument (name : String)
  | everything
deriving DecidableEq, Repr

/-- The arguments that are seen. -/
def Sight.of (c : Context) : Sight → Bindings Value
  | nothing => []
  | argument name => (c.argument? name).toList.map fun v => (name, v)
  | everything => c.arguments

/-- A tree that is looked up, and may be called. -/
def Node.sight (t : ClassTable) (b : Bound) : Node → Sight
  | .name n => .argument n
  | .lambda _ _ _ => .everything
  | .call ns n (_ :: _) =>
    if ns.isEmpty && (b.method? t ns n).isNone then .argument n else .nothing
  | _ => .nothing

def Task.sight (t : ClassTable) : {α : Type} → Task α → Sight
  | _, eval b n => n.sight t b
  | _, assign _ (.name n) _ => .argument n
  | _, typeOf _ (.name n) => .argument n
  | _, readOnly _ (.name n) => .argument n
  | _, _ => .nothing

theorem Context.isArgument_eq (c : Context) (name : String) :
    c.isArgument name = (c.argument? name).isSome := by
  unfold Context.isArgument Context.argument?
  induction c.scopes with
  | nil => rfl
  | cons scope outer ih =>
    rw [List.any_cons, List.findSome?_cons, Bindings.contains, ih]
    cases scope.find? name <;> rfl

theorem Sight.find?_of (c : Context) (name : String) :
    ((Sight.argument name).of c).find? name = c.argument? name := by
  show Bindings.find? ((c.argument? name).toList.map fun v => (name, v)) name = _
  cases c.argument? name with
  | none => rfl
  | some v => simp [Bindings.find?]

/-- Two computations look at these arguments, and go on in a related way, whatever they see. -/
def Sight.Related (R : ∀ {α : Type}, Action α → Action α → Prop) {α : Type} (s : Sight)
    (x y : Action α) : Prop :=
  ∃ f g : Bindings Value → Action α, (x = Action.context >>= fun c => f (s.of c)) ∧
    (y = Action.context >>= fun c => g (s.of c)) ∧ ∀ seen, R (f seen) (g seen)

namespace Sight.Related

variable {α β : Type} {R : ∀ {α : Type}, Action α → Action α → Prop} {s : Sight} {x y : Action α}

/-- Related computations need not look. -/
theorem of_related (h : R x y) : Related R s x y :=
  ⟨fun _ => x, fun _ => y, rfl, rfl, fun _ => h⟩

theorem argument {name : String} {f g : Option Value → Action α} (h : ∀ a, R (f a) (g a)) :
    Related R (.argument name) (Action.context >>= fun c => f (c.argument? name))
      (Action.context >>= fun c => g (c.argument? name)) :=
  ⟨fun seen => f (seen.find? name), fun seen => g (seen.find? name),
    by simp only [find?_of], by simp only [find?_of], fun seen => h _⟩

theorem isArgument {name : String} {x x' y y' : Action α} (hx : R x x') (hy : R y y') :
    Related R (.argument name) (Action.context >>= fun c => if c.isArgument name then x else y)
      (Action.context >>= fun c => if c.isArgument name then x' else y') := by
  simp only [Context.isArgument_eq]
  refine argument (f := fun a => if a.isSome then x else y)
    (g := fun a => if a.isSome then x' else y') fun a => ?_
  cases a with
  | none => exact hy
  | some v => exact hx

theorem arguments {f g : Bindings Value → Action α} (h : ∀ seen, R (f seen) (g seen)) :
    Related R .everything (Action.context >>= fun c => f c.arguments)
      (Action.context >>= fun c => g c.arguments) :=
  ⟨f, g, rfl, rfl, h⟩

end Sight.Related

namespace Evaluation

open Lockstep

variable {α : Type} {host : Host} {handle handle' : Handler} {L : Layout → Prop}
  {R : ∀ {α : Type}, Action α → Action α → Prop}

/-- The value of a name that has this argument, if it has one. -/
def valueOf (host : Host) (handle : Handler) (b : Bound) (name : String) (a : Option Value) :
    Action (Option Value) :=
  match a with
  | some v => pure (some v)
  | none =>
    match b.expression? name with
    | some e => some <$> e.read host handle
    | none => do
      let v ← Resolution.resolve host handle (.get .null (.text name))
      if ← Action.isResolved then pure (some v) else pure none

theorem findValue_eq (b : Bound) (name : String) :
    findValue host handle b name = Action.context >>= fun c =>
      valueOf host handle b name (c.argument? name) := by
  unfold findValue valueOf
  refine bind_congr fun c => ?_
  cases c.argument? name with
  | some v => rfl
  | none => cases b.expression? name <;> rfl

section Step
variable (hd : Programmed host handle handle' L R)
include hd

/-! ## Operators and names -/

theorem truth_lockstep (b : Bound) (n : Node) : R (truth handle b n) (truth handle' b n) :=
  hd.bind (hd.handler _) fun _ => hd.bind hd.heap fun _ => hd.ofExcept _

theorem unary_lockstep (b : Bound) (op : UnaryOp) (n : Node) :
    R (unary handle b op n) (unary handle' b op n) := by
  refine hd.bind (hd.handler _) fun v => hd.bind hd.heap fun h => ?_
  cases op with
  | neg => exact hd.ofExcept _
  | not => exact hd.ofExcept _
  | empty => exact hd.pure _

theorem strict_lockstep (b : Bound) (op : BinaryOp) (left right : Node) :
    R (do
        let v ← handle (.eval b left)
        let w ← handle (.eval b right)
        Action.ofExcept (applyStrict (← Action.heap) op v w))
      (do
        let v ← handle' (.eval b left)
        let w ← handle' (.eval b right)
        Action.ofExcept (applyStrict (← Action.heap) op v w)) :=
  hd.bind (hd.handler _) fun _ => hd.bind (hd.handler _) fun _ => hd.bind hd.heap fun _ => hd.ofExcept _

theorem binary_lockstep (b : Bound) (op : BinaryOp) (left right : Node) :
    R (binary handle b op left right) (binary handle' b op left right) := by
  cases op with
  | and =>
    exact hd.bind (truth_lockstep hd b left) fun _ =>
      hd.ite (hd.map _ (truth_lockstep hd b right)) (hd.pure _)
  | or =>
    exact hd.bind (truth_lockstep hd b left) fun _ =>
      hd.ite (hd.pure _) (hd.map _ (truth_lockstep hd b right))
  | elvis =>
    exact hd.bind (hd.handler _) fun _ => hd.bind hd.heap fun _ => hd.bind (hd.ofExcept _) fun _ =>
      hd.ite (hd.pure _) (hd.handler _)
  | coalesce => exact hd.bind (hd.handler _) fun _ => hd.ite (hd.handler _) (hd.pure _)
  | _ => exact strict_lockstep hd b _ left right

theorem branch_lockstep (b : Bound) (condition yes no : Node) :
    R (branch handle b condition yes no) (branch handle' b condition yes no) :=
  hd.bind (truth_lockstep hd b condition) fun _ => hd.ite (hd.pure _) (hd.pure _)

theorem valueOf_lockstep (b : Bound) (name : String) (a : Option Value) :
    R (valueOf host handle b name a) (valueOf host handle' b name a) := by
  unfold valueOf
  cases a with
  | some v => exact hd.pure _
  | none =>
    cases b.expression? name with
    | some e => exact hd.map _ (hd.read e)
    | none =>
      exact hd.bind (Resolution.resolve_lockstep hd _) fun _ => hd.bind hd.isResolved fun _ =>
        hd.ite (hd.pure _) (hd.pure _)

/-! ## Paths and calls -/

theorem evalAll_lockstep (b : Bound) (ns : List Node) :
    R (evalAll handle b ns) (evalAll handle' b ns) := by
  induction ns with
  | nil => exact hd.pure _
  | cons n ns ih => exact hd.bind (hd.handler _) fun _ => hd.bind ih fun _ => hd.pure _

theorem selected_lockstep (b : Bound) (s : Selector) :
    R (selected handle b s) (selected handle' b s) := by
  cases s with
  | field name => exact hd.pure _
  | index n => exact hd.handler _

theorem follow_lockstep (b : Bound) (base : Value) (s : Step) :
    R (follow host handle b base s) (follow host handle' b base s) := by
  refine hd.bind (selected_lockstep hd b s.selector) fun property => ?_
  cases s.args? with
  | some args =>
    exact hd.bind (evalAll_lockstep hd b _) fun _ => Resolution.invoke_lockstep hd _ _ _ _
  | none => exact hd.ite (hd.pure _) (Resolution.require_lockstep hd _ _ _)

theorem walk_lockstep (b : Bound) (v : Value) (ss : List Step) :
    R (walk host handle b v ss) (walk host handle' b v ss) := by
  induction ss generalizing v with
  | nil => exact hd.pure _
  | cons s ss ih =>
    exact hd.ite (hd.pure _) (hd.bind (follow_lockstep hd b v s) fun w => ih w)

theorem reach_lockstep (b : Bound) (v : Value) (ss : List Step) :
    R (reach host handle b v ss) (reach host handle' b v ss) := by
  induction ss generalizing v with
  | nil => exact hd.pure _
  | cons s ss ih =>
    exact hd.bind (follow_lockstep hd b v s) fun w => hd.ite (hd.fail _) (ih w)

theorem target_lockstep (b : Bound) (base : Node) (steps : List Step) :
    R (target host handle b base steps) (target host handle' b base steps) := by
  unfold target
  cases steps.getLast? with
  | none => exact hd.fail _
  | some last =>
    exact hd.bind (hd.handler _) fun _ => hd.ite (hd.fail _) <|
      hd.bind (reach_lockstep hd b _ _) fun _ => hd.pure _

theorem callChain_lockstep (b : Bound) (key : String) (v : Value) (calls : List (List Node)) :
    R (callChain handle b key v calls) (callChain handle' b key v calls) := by
  induction calls generalizing v with
  | nil => exact hd.pure _
  | cons args rest ih =>
    refine hd.bind (evalAll_lockstep hd b args) fun vs => ?_
    cases v with
    | lambda f => exact hd.bind (hd.closure f vs) fun w => ih w
    | _ => exact hd.bind hd.heap fun _ => hd.fail _

theorem callImported_lockstep (b : Bound) (name : String) (first : List Node)
    (rest : List (List Node)) :
    R (callImported host handle b name first rest) (callImported host handle' b name first rest) := by
  have called (c : ClassId) (method : String) : R
      (do
        let vs ← evalAll handle b first
        let v ← Resolution.invoke host handle (.cls c) (.text method) none vs
        callChain handle b name v rest)
      (do
        let vs ← evalAll handle' b first
        let v ← Resolution.invoke host handle' (.cls c) (.text method) none vs
        callChain handle' b name v rest) :=
    hd.bind (evalAll_lockstep hd b first) fun _ =>
      hd.bind (Resolution.invoke_lockstep hd _ _ _ _) fun v => callChain_lockstep hd b name v rest
  refine hd.context (fun _ _ => rfl) (fun _ _ => rfl) fun c _ => ?_
  dsimp only
  cases c.imports.classes.find? name with
  | some c => exact called c _
  | none =>
    cases c.imports.statics.find? name with
    | some c => exact called c name
    | none => exact hd.fail _

/-! ## Tasks -/

theorem joinParts_lockstep (b : Bound) (ns : List Node) :
    R (joinParts handle b ns) (joinParts handle' b ns) := by
  induction ns with
  | nil => exact hd.pure _
  | cons n ns ih =>
    exact hd.bind (hd.handler _) fun _ => hd.bind hd.heap fun _ => hd.bind ih fun _ => hd.pure _

theorem evalEntries_lockstep (b : Bound) (es : List (Node × Node)) :
    R (evalEntries handle b es) (evalEntries handle' b es) := by
  induction es with
  | nil => exact hd.pure _
  | cons e es ih =>
    exact hd.bind (hd.handler _) fun _ => hd.bind (hd.handler _) fun _ => hd.bind ih fun _ => hd.pure _

theorem convertForWrite_lockstep (base property v : Value) :
    R (convertForWrite host handle base property v) (convertForWrite host handle' base property v) := by
  refine hd.bind (Resolution.resolve_lockstep hd _) fun t => hd.bind hd.isResolved fun claimed => ?_
  cases t with
  | none => exact hd.pure _
  | some t => exact hd.ite (hd.convert v t) (hd.pure _)

theorem typeOfValue_lockstep (b : Bound) (n : Node) :
    R (typeOfValue handle b n) (typeOfValue handle' b n) :=
  hd.bind (hd.handler _) fun _ => hd.bind hd.heap fun _ => hd.pure _

theorem methodNamed_lockstep (b : Bound) (name : String) :
    R (methodNamed host handle b name) (methodNamed host handle' b name) := by
  unfold methodNamed
  rcases b.expression? name with _ | e
  case' none => refine hd.bind (Resolution.resolve_lockstep hd _) fun v => ?_
  case' some => refine hd.bind (hd.read e) fun v => ?_
  all_goals
    cases v with
    | method m => exact hd.pure _
    | null => exact hd.fail _
    | _ => exact hd.bind hd.heap fun _ => hd.fail _

theorem invoke_lockstep (b : Bound) (n : Node) (types : Option (List TypeRef)) (args : List Value) :
    R (invoke host handle b n types args) (invoke host handle' b n types args) := by
  cases n with
  | deferred body => exact hd.handler _
  | dynamic body => exact hd.handler _
  | path base steps =>
    refine hd.bind (target_lockstep hd b base steps) fun t =>
      hd.bind (selected_lockstep hd b _) fun _ => ?_
    cases t.2.args? with
    | some own =>
      exact hd.bind (evalAll_lockstep hd b _) fun _ => Resolution.invoke_lockstep hd _ _ _ _
    | none => exact Resolution.invoke_lockstep hd _ _ _ _
  | name name =>
    exact hd.bind (methodNamed_lockstep hd b name) fun m => hd.methodExpr_invoke m args
  | choice condition yes no =>
    exact hd.bind (branch_lockstep hd b condition yes no) fun _ => hd.handler _
  | sequence first second => exact hd.bind (hd.handler _) fun _ => hd.handler _
  | _ => exact hd.fail _

theorem describeMethod_lockstep (base property : Value) (types : Option (List TypeRef)) :
    R (describeMethod host base property types) (describeMethod host base property types) := by
  refine hd.bind hd.heap fun h => hd.bind (hd.ofExcept _) fun name => ?_
  dsimp only
  split
  · exact hd.pure _
  · exact hd.map _ (hd.ofExcept _)

theorem info_lockstep (b : Bound) (n : Node) (types : Option (List TypeRef)) :
    R (info host handle b n types) (info host handle' b n types) := by
  cases n with
  | deferred body => exact hd.handler _
  | dynamic body => exact hd.handler _
  | path base steps =>
    exact hd.bind (target_lockstep hd b base steps) fun _ => hd.ite (hd.pure _) <|
      hd.bind (selected_lockstep hd b _) fun _ => hd.map _ (describeMethod_lockstep hd _ _ _)
  | name name =>
    exact hd.bind (methodNamed_lockstep hd b name) fun m => hd.methodExpr_info m
  | choice condition yes no =>
    exact hd.bind (branch_lockstep hd b condition yes no) fun _ => hd.handler _
  | sequence first second => exact hd.bind (hd.handler _) fun _ => hd.handler _
  | _ => exact hd.fail _

/-! ## Tasks that look at arguments -/

theorem findValue_related (b : Bound) (name : String) {f g : Option Value → Action α}
    (hfg : ∀ a, R (f a) (g a)) :
    (Sight.argument name).Related R (findValue host handle b name >>= f)
      (findValue host handle' b name >>= g) := by
  rw [findValue_eq, findValue_eq, bind_assoc, bind_assoc]
  exact .argument fun a => hd.bind (valueOf_lockstep hd b name a) hfg

theorem nameValue_related (b : Bound) (name : String) :
    (Sight.argument name).Related R (nameValue host handle b name) (nameValue host handle' b name) := by
  refine findValue_related hd b name fun a => ?_
  cases a with
  | some v => exact hd.pure _
  | none =>
    refine hd.context (fun _ _ => rfl) (fun _ _ => rfl) fun c _ => ?_
    dsimp only
    cases c.imports.statics.find? name with
    | some k => exact Resolution.require_lockstep hd _ _ _
    | none =>
      cases c.imports.classes.find? name with
      | some k => exact hd.pure _
      | none => exact hd.fail _

theorem call_related (b : Bound) (ns name : String) (calls : List (List Node)) :
    ((Node.call ns name calls).sight host.classes b).Related R (call host handle b ns name calls)
      (call host handle' b ns name calls) := by
  cases calls with
  | nil => exact .of_related (hd.fail _)
  | cons first rest =>
    simp only [call, Node.sight]
    cases hm : b.method? host.classes ns name with
    | some m =>
      obtain ⟨_, -, hdeclared⟩ := Option.bind_eq_some_iff.mp hm
      exact .of_related <| hd.bind (evalAll_lockstep hd b _) fun _ => hd.bind (hd.ofExcept _) fun _ =>
        hd.bind (hd.method_invoke (ClassTable.declares_of_method? hdeclared) _ _) fun v =>
          callChain_lockstep hd b _ v _
    | none =>
      cases hns : ns.isEmpty with
      | false => exact .of_related (hd.fail _)
      | true =>
        refine findValue_related hd b name fun a => ?_
        split
        · exact callChain_lockstep hd b _ _ _
        · exact callImported_lockstep hd b name _ _

theorem eval_related (b : Bound) (n : Node) :
    (n.sight host.classes b).Related R (eval host handle b n) (eval host handle' b n) := by
  cases n with
  | name name => exact nameValue_related hd b name
  | call ns name calls => exact call_related hd b ns name calls
  | lambda params body calls =>
    exact Sight.Related.arguments
      (f := fun seen => callChain handle b _ (.lambda (.mk params body b seen)) calls)
      (g := fun seen => callChain handle' b _ (.lambda (.mk params body b seen)) calls)
      fun seen => callChain_lockstep hd b _ _ calls
  | plain text => exact .of_related (hd.pure _)
  | template parts => exact .of_related (hd.map _ (joinParts_lockstep hd b parts))
  | deferred body => exact .of_related (hd.handler _)
  | dynamic body => exact .of_related (hd.handler _)
  | null => exact .of_related (hd.pure _)
  | boolean t => exact .of_related (hd.pure _)
  | integer text => exact .of_related (hd.ofExcept _)
  | floating text => exact .of_related (hd.ofExcept _)
  | text content => exact .of_related (hd.pure _)
  | path base steps =>
    exact .of_related (hd.bind (hd.handler _) fun v => walk_lockstep hd b v steps)
  | unary op operand => exact .of_related (unary_lockstep hd b op operand)
  | binary op left right => exact .of_related (binary_lockstep hd b op left right)
  | choice condition yes no =>
    exact .of_related (hd.bind (branch_lockstep hd b condition yes no) fun _ => hd.handler _)
  | assign target value =>
    exact .of_related (hd.bind (hd.handler _) fun _ => hd.bind (hd.handler _) fun _ => hd.pure _)
  | sequence first second => exact .of_related (hd.bind (hd.handler _) fun _ => hd.handler _)
  | list items => exact .of_related (hd.bind (evalAll_lockstep hd b items) fun _ => hd.build _)
  | set items => exact .of_related (hd.bind (evalAll_lockstep hd b items) fun _ => hd.build _)
  | map entries => exact .of_related (hd.bind (evalEntries_lockstep hd b entries) fun _ => hd.build _)

theorem assign_related (b : Bound) (n : Node) (v : Value) :
    ((Task.assign b n v).sight host.classes).Related R (assign host handle b n v)
      (assign host handle' b n v) := by
  cases n with
  | name name =>
    refine .isArgument (hd.fail _) ?_
    cases b.expression? name with
    | some e => exact hd.write e v
    | none => exact Resolution.require_lockstep hd _ _ _
  | deferred body => exact .of_related (hd.handler _)
  | dynamic body => exact .of_related (hd.handler _)
  | path base steps =>
    exact .of_related <| hd.bind (target_lockstep hd b base steps) fun _ => hd.ite (hd.fail _) <|
      hd.bind (selected_lockstep hd b _) fun _ => hd.bind (convertForWrite_lockstep hd _ _ v) fun _ =>
      Resolution.require_lockstep hd _ _ _
  | choice condition yes no =>
    exact .of_related (hd.bind (branch_lockstep hd b condition yes no) fun _ => hd.handler _)
  | sequence first second => exact .of_related (hd.bind (hd.handler _) fun _ => hd.handler _)
  | _ => exact .of_related (hd.fail _)

theorem typeOf_related (b : Bound) (n : Node) :
    ((Task.typeOf b n).sight host.classes).Related R (typeOf host handle b n)
      (typeOf host handle' b n) := by
  cases n with
  | name name =>
    refine .isArgument (hd.pure _) ?_
    cases b.expression? name with
    | some e => exact hd.type? e
    | none => exact Resolution.require_lockstep hd _ _ _
  | deferred body => exact .of_related (hd.handler _)
  | dynamic body => exact .of_related (hd.handler _)
  | path base steps =>
    exact .of_related <| hd.bind (target_lockstep hd b base steps) fun _ => hd.ite (hd.pure _) <|
      hd.bind (selected_lockstep hd b _) fun _ => Resolution.require_lockstep hd _ _ _
  | call ns name calls =>
    refine .of_related ?_
    -- The type of one call is that of the function, where it is known.
    match calls with
    | [] => exact typeOfValue_lockstep hd b _
    | [args] =>
      simp only [typeOf]
      cases b.method? host.classes ns name with
      | some m => exact hd.pure _
      | none => exact typeOfValue_lockstep hd b _
    | _ :: _ :: _ => exact typeOfValue_lockstep hd b _
  | choice condition yes no =>
    exact .of_related (hd.bind (branch_lockstep hd b condition yes no) fun _ => hd.handler _)
  | sequence first second => exact .of_related (hd.handler _)
  | _ => exact .of_related (typeOfValue_lockstep hd b _)

theorem readOnly_related (b : Bound) (n : Node) :
    ((Task.readOnly b n).sight host.classes).Related R (readOnly host handle b n)
      (readOnly host handle' b n) := by
  cases n with
  | name name =>
    refine .isArgument (hd.pure _) ?_
    cases b.expression? name with
    | some e => exact hd.isReadOnly e
    | none => exact Resolution.require_lockstep hd _ _ _
  | deferred body => exact .of_related (hd.handler _)
  | dynamic body => exact .of_related (hd.handler _)
  | path base steps =>
    exact .of_related <| hd.bind (target_lockstep hd b base steps) fun _ => hd.ite (hd.pure _) <|
      hd.bind (selected_lockstep hd b _) fun _ => Resolution.require_lockstep hd _ _ _
  | choice condition yes no =>
    exact .of_related (hd.bind (branch_lockstep hd b condition yes no) fun _ => hd.handler _)
  | sequence first second => exact .of_related (hd.handler _)
  | _ => exact .of_related (hd.pure _)

/-- Two handlers take steps in a related way where they carry out the tasks inside so, as far as both see
the same arguments. -/
theorem step_related (t : Task α) :
    (t.sight host.classes).Related R (step host handle t) (step host handle' t) := by
  cases t with
  | eval b n => exact eval_related hd b n
  | assign b n v => exact assign_related hd b n v
  | typeOf b n => exact typeOf_related hd b n
  | readOnly b n => exact readOnly_related hd b n
  | invoke b n types args => exact .of_related (invoke_lockstep hd b n types args)
  | info b n types => exact .of_related (info_lockstep hd b n types)

end Step

end Evaluation

end ExprLang
