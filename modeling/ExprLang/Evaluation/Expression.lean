import ExprLang.Evaluation.Capture
import ExprLang.Evaluation.Task
import ExprLang.Template

/-! Lambdas, expressions and code of the host, carried out by a handler of tasks on trees. -/

namespace ExprLang

variable (host : Host) (handle : Handler)

/-- Runs a computation with one more scope of arguments, which goes again however it ends. -/
def withScope {α : Type} (scope : Bindings Value) (x : Action α) : Action α := do
  Action.modifyContext fun c => { c with scopes := scope :: c.scopes }
  let r ← Action.attempt x
  Action.modifyContext fun c => { c with scopes := c.scopes.tail }
  Action.ofExcept r

namespace Closure

/-- The scope in which the body runs: captured arguments, and those of the call; missing ones are
null. -/
def scope (f : Closure) (args : List Value) : Bindings Value :=
  f.params.zipIdx.foldl (fun s (name, i) => s.insert name (args.getD i .null)) f.captured

def invoke (f : Closure) (args : List Value) : Action Value :=
  withScope (f.scope args) (handle (.eval f.bound f.body))

end Closure

/-- Runs a computation between the events of an expression. -/
def bracketed {α : Type} (text : String) (x : Action α) : Action α := do
  Action.notify (.before text)
  let a ← x
  Action.notify (.after text)
  pure a

namespace ValueExpr

/-- The value, as one of the expected type. -/
def read (e : ValueExpr) : Action Value :=
  match e with
  | parsed text node bound expected =>
    bracketed text do
      let v ← handle (.eval bound node)
      Conversion.convertTo? host v expected
  | literal v expected => Conversion.convertTo? host v expected

/-- The value as one of a type, whatever type was expected. -/
def readAs (e : ValueExpr) (t : TypeRef) : Action Value := do
  let v ← match e with
    | parsed text node bound _ => bracketed text (handle (.eval bound node))
    | literal v _ => pure v
  Conversion.convert host v t

def write (e : ValueExpr) (v : Value) : Action Unit := do
  match e with
  | parsed text node bound _ => bracketed text (handle (.assign bound node v))
  | literal w _ => Action.fail (.fixedValue ((← Action.heap).display w))

def isReadOnly (e : ValueExpr) : Action Bool :=
  match e with
  | parsed _ node bound _ => handle (.readOnly bound node)
  | literal _ _ => pure true

def type? (e : ValueExpr) : Action (Option TypeRef) :=
  match e with
  | parsed _ node bound _ => handle (.typeOf bound node)
  | literal _ _ => pure none

end ValueExpr

namespace MethodExpr

/-- Calls the method; plain text is its own result. -/
def invoke (m : MethodExpr) (args : List Value) : Action Value :=
  match m with
  | parsed text node bound _ params => bracketed text (handle (.invoke bound node params args))
  | plain text returns _ =>
    match returns with
    | none => pure (.text text)
    | some .void => pure (.text text)
    | some t => Conversion.convert host (.text text) t

def info (m : MethodExpr) : Action (Option MethodInfo) :=
  match m with
  | parsed _ node bound _ params => handle (.info bound node params)
  | plain text returns params => pure (some ⟨text, returns.getD .object, params.getD []⟩)

end MethodExpr

/-- The expression of a text, with what it mentions in the context. -/
def expressionOf (t : ClassTable) (c : Context) (text : String) : Except Fault ValueExpr := do
  let node ← (parseTemplate text).mapError .parse
  let bound ← Bound.capture t c.bound node
  pure (.parsed text node bound none)

/-- Builds the expression of a text in the context and uses it. -/
def withText {α : Type} (text : String) (use : ValueExpr → Action α) : Action (Except Fault α) :=
  Action.attempt do
    let e ← Action.ofExcept (expressionOf host.classes (← Action.context) text)
    use e

/-- Runs code of the host. -/
def HostCode.perform : HostCode → Action (Except Failure Value)
  | .finish r => pure r
  | .read next => do
    let h ← Action.heap
    (next h).perform
  | .write h next => do
    Action.setCells h
    next.perform
  | .bean name next => do
    let c ← Action.context
    (next (c.bean? name)).perform
  | .call f args next => do
    let r ← Action.attempt (f.invoke handle args)
    (next r).perform
  | .evaluate text next => do
    let r ← withText host text (·.read host handle)
    (next r).perform
  | .typeOf text next => do
    let r ← withText host text (·.type? handle)
    (next r).perform
  | .readOnly text next => do
    let r ← withText host text (·.isReadOnly handle)
    (next r).perform
  | .assign text v next => do
    let r ← withText host text (·.write handle v)
    (next r).perform

namespace Method

/-- Runs the code of a method as it is given. -/
def run (m : Method) (self : Value) (args : List Value) : Action Value := do
  match m.body with
  | none =>
    let l := (← Action.heap).lineage
    Action.fail (.abstractMethod (m.owner l) (m.signature l))
  | some code =>
    match ← (code self args).perform host handle with
    | .ok v => pure v
    | .error e => Action.fail e.toFault

/-- The last argument is the array that the method would gather. -/
def takesArray (h : Heap) (m : Method) (args : List Value) : Bool :=
  match m.gathers, args.getLast? with
  | some component, some v =>
    match v with
    | .array a =>
      args.length == m.params.length && h.lineage.assignable (.array component) (.array (h.array a).1)
    | _ => false
  | _, _ => false

/-- Arguments as values of the types at the same places. -/
def convertAll : List TypeRef → List Value → Action (List Value)
  | t :: ts, v :: vs => do
    let w ← Conversion.convert host v t
    let ws ← convertAll ts vs
    pure (w :: ws)
  | _, _ => pure []

/-- Converts arguments to the types of the parameters, gathers the last ones where the method does,
and runs the method. -/
def invoke (m : Method) (self : Value) (args : List Value) : Action Value := do
  let h ← Action.heap
  match m.gathers, m.takesArray h args with
  | some component, false =>
    let fixed ← convertAll host m.fixed args
    let spare := args.drop m.fixed.length
    let rest ← convertAll host (spare.map fun _ => component) spare
    let gathered ← Action.build (·.newArray component rest)
    m.run host handle self (fixed ++ [gathered])
  | _, _ =>
    if args.length = m.params.length then
      let converted ← convertAll host m.params args
      m.run host handle self converted
    else Action.fail (.wrongCount (m.signature h.lineage) m.params.length args.length)

end Method

end ExprLang
