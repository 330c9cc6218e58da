import ExprLang.Evaluation.Resolution
import ExprLang.Value.Arithmetic
import ExprLang.Value.Comparison

/-! One step of every task on a tree. The tasks on the trees inside it are left to a handler; carrying
those out in the same way, to some depth, is the evaluator. -/

namespace ExprLang.Evaluation

variable (host : Host) (handle : Handler)

/-! ## Literals -/

def integerLiteral (text : String) : Except Fault Value :=
  match IntegerText.ofWidth 64 text with
  | .ok n => .ok (.long (Int64.ofInt n))
  | .error _ =>
    match IntegerText.unbounded text with
    | .ok n => .ok (.bigInt n)
    | .error _ => .error (.badInteger text)

/-- A floating number; one that is too large is a decimal number. -/
def floatingLiteral (text : String) : Except Fault Value :=
  match (Binary.ofText text : Except Binary.TextFault Double) with
  | .error _ => .error (.badFloating text)
  | .ok (.infinite _) =>
    match Decimal.ofText text with
    | .ok d => .ok (.decimal d)
    | .error _ => .error (.badFloating text)
  | .ok x => .ok (.double x)

/-! ## Operators -/

/-- The value of a strict operator. -/
def applyStrict (h : Heap) (op : BinaryOp) (a b : Value) : Except Fault Value :=
  match op with
  | .add => Arithmetic.add h a b
  | .sub => Arithmetic.sub h a b
  | .mul => Arithmetic.mul h a b
  | .div => Arithmetic.div h a b
  | .mod => Arithmetic.rem h a b
  | .eq => Value.bool <$> Comparison.equals h a b
  | .ne => (fun r => .bool !r) <$> Comparison.equals h a b
  | .lt => Value.bool <$> Comparison.less h a b
  | .gt => Value.bool <$> Comparison.greater h a b
  | .le => Value.bool <$> Comparison.lessEqual h a b
  | .ge => Value.bool <$> Comparison.greaterEqual h a b
  | _ => .ok (.text (Coercion.toText h a ++ Coercion.toText h b))

/-- The value of a tree as a truth value. -/
def truth (b : Bound) (n : Node) : Action Bool := do
  let v ← handle (.eval b n)
  Action.ofExcept (Coercion.toBool (← Action.heap) v)

def unary (b : Bound) (op : UnaryOp) (operand : Node) : Action Value := do
  let v ← handle (.eval b operand)
  let h ← Action.heap
  match op with
  | .neg => Action.ofExcept (Arithmetic.neg h v)
  | .not => Action.ofExcept ((fun r => .bool !r) <$> Coercion.toBool h v)
  | .empty => pure (.bool (Comparison.isEmpty h v))

def binary (b : Bound) (op : BinaryOp) (left right : Node) : Action Value :=
  match op with
  | .and => do
    if ← truth handle b left then Value.bool <$> truth handle b right else pure (.bool false)
  | .or => do
    if ← truth handle b left then pure (.bool true) else Value.bool <$> truth handle b right
  | .elvis => do
    let v ← handle (.eval b left)
    if ← Action.ofExcept (Coercion.toBool (← Action.heap) v) then pure v
    else handle (.eval b right)
  | .coalesce => do
    let v ← handle (.eval b left)
    if v.isNull then handle (.eval b right) else pure v
  | op => do
    let v ← handle (.eval b left)
    let w ← handle (.eval b right)
    Action.ofExcept (applyStrict (← Action.heap) op v w)

/-- The branch that a condition chooses. -/
def branch (b : Bound) (condition yes no : Node) : Action Node := do
  if ← truth handle b condition then pure yes else pure no

/-! ## Names -/

/-- The value of a name: an argument, a variable of the expression, or what the chain has. -/
def findValue (b : Bound) (name : String) : Action (Option Value) := do
  match (← Action.context).argument? name with
  | some v => pure (some v)
  | none =>
    match b.expression? name with
    | some e => some <$> e.read host handle
    | none =>
      let v ← Resolution.resolve host handle (.get .null (.text name))
      if ← Action.isResolved then pure (some v) else pure none

/-- The value of a name; where nothing else has it, an imported member or class. -/
def nameValue (b : Bound) (name : String) : Action Value := do
  match ← findValue host handle b name with
  | some v => pure v
  | none =>
    let i := (← Action.context).imports
    match i.statics.find? name, i.classes.find? name with
    | some c, _ => Resolution.get host handle (.cls c) (.text name)
    | none, some c => pure (.cls c)
    | none, none => Action.fail (.unresolvedName name)

/-! ## Paths -/

def evalAll (b : Bound) : List Node → Action (List Value)
  | [] => pure []
  | n :: ns => do
    let v ← handle (.eval b n)
    let vs ← evalAll b ns
    pure (v :: vs)

/-- The property that a step selects. -/
def selected (b : Bound) : Selector → Action Value
  | .field name => pure (.text name)
  | .index n => handle (.eval b n)

/-- Takes one step from a value. -/
def follow (b : Bound) (base : Value) (s : Step) : Action Value := do
  let property ← selected handle b s.selector
  match s.args? with
  | some args =>
    let vs ← evalAll handle b args
    Resolution.invoke host handle base property none vs
  | none => if property.isNull then pure .null else Resolution.get host handle base property

/-- Takes steps from a value, until one leads to null. -/
def walk (b : Bound) (v : Value) : List Step → Action Value
  | [] => pure v
  | s :: ss =>
    if v.isNull then pure .null
    else do
      let w ← follow host handle b v s
      walk b w ss

/-- What a tree is called where it leads to null. -/
def nameOf : Node → String
  | .name n => n
  | n => n.kind

def stepName (s : Step) : String :=
  match s.selector with
  | .field name => name
  | .index n => "[" ++ nameOf n ++ "]"

/-- Takes all steps but the last one; none may lead to null. -/
def reach (b : Bound) (v : Value) : List Step → Action Value
  | [] => pure v
  | s :: ss => do
    let w ← follow host handle b v s
    if w.isNull then Action.fail (.nullStep (stepName s)) else reach b w ss

/-- The value before the last step of a path, and that step. -/
def target (b : Bound) (base : Node) (steps : List Step) : Action (Value × Step) :=
  match steps.getLast? with
  | none => Action.fail .emptyPath
  | some last => do
    let v ← handle (.eval b base)
    if v.isNull then Action.fail (.nullBase (nameOf base))
    else
      let w ← reach host handle b v steps.dropLast
      pure (w, last)

/-! ## Functions and lambdas -/

/-- Calls a value with each argument list in turn; each call but the last one has to give a
lambda. -/
def callChain (b : Bound) (key : String) (v : Value) : List (List Node) → Action Value
  | [] => pure v
  | args :: rest => do
    let vs ← evalAll handle b args
    match v with
    | .lambda f =>
      let w ← f.invoke handle vs
      callChain b key w rest
    | v => Action.fail (.notCallable key ((← Action.heap).typeName v))

/-- Calls a constructor of an imported class or an imported static method. -/
def callImported (b : Bound) (name : String) (first : List Node) (rest : List (List Node)) :
    Action Value := do
  let i := (← Action.context).imports
  let found :=
    match i.classes.find? name, i.statics.find? name with
    | some c, _ => some (c, constructorName)
    | none, some c => some (c, name)
    | none, none => none
  match found with
  | none => Action.fail (.unknownFunction name)
  | some (c, method) =>
    let vs ← evalAll handle b first
    let v ← Resolution.invoke host handle (.cls c) (.text method) none vs
    callChain handle b name v rest

/-- Calls a function: a mapped one, a lambda of that name, or what is imported. -/
def call (b : Bound) (ns name : String) (calls : List (List Node)) : Action Value :=
  let key := Bound.functionKey ns name
  match calls with
  | [] => Action.fail (.noArgumentList key)
  | first :: rest =>
    match b.method? host.classes ns name with
    | some m => do
      let vs ← evalAll handle b first
      Action.ofExcept (m.checkCount key vs.length)
      let v ← m.invoke host handle .null vs
      callChain handle b key v rest
    | none =>
      if !ns.isEmpty then Action.fail (.unmappedFunction key)
      else do
        match ← findValue host handle b name with
        | some (.lambda f) => callChain handle b key (.lambda f) calls
        | _ => callImported host handle b name first rest

/-! ## Reading -/

/-- The texts of parts, one after the other. -/
def joinParts (b : Bound) : List Node → Action String
  | [] => pure ""
  | n :: ns => do
    let v ← handle (.eval b n)
    let s := Coercion.toText (← Action.heap) v
    let rest ← joinParts b ns
    pure (s ++ rest)

def evalEntries (b : Bound) : List (Node × Node) → Action (List (Value × Value))
  | [] => pure []
  | (k, n) :: es => do
    let key ← handle (.eval b k)
    let v ← handle (.eval b n)
    let rest ← evalEntries b es
    pure ((key, v) :: rest)

/-- The value of a tree. -/
def eval (b : Bound) (n : Node) : Action Value :=
  match n with
  | .plain text => pure (.text text)
  | .template parts => Value.text <$> joinParts handle b parts
  | .deferred body => handle (.eval b body)
  | .dynamic body => handle (.eval b body)
  | .null => pure .null
  | .boolean t => pure (.bool t)
  | .integer text => Action.ofExcept (integerLiteral text)
  | .floating text => Action.ofExcept (floatingLiteral text)
  | .text content => pure (.text content)
  | .name name => nameValue host handle b name
  | .path base steps => do
    let v ← handle (.eval b base)
    walk host handle b v steps
  | .call ns name calls => call host handle b ns name calls
  | .lambda params body calls => do
    let captured := (← Action.context).arguments
    callChain handle b "lambda expression" (.lambda (.mk params body b captured)) calls
  | .unary op operand => unary handle b op operand
  | .binary op left right => binary handle b op left right
  | .choice condition yes no => do
    let chosen ← branch handle b condition yes no
    handle (.eval b chosen)
  | .assign target value => do
    let v ← handle (.eval b value)
    handle (.assign b target v)
    pure v
  | .sequence first second => do
    let _ ← handle (.eval b first)
    handle (.eval b second)
  | .list items => do
    let vs ← evalAll handle b items
    Action.build (·.newList vs)
  | .set items => do
    let vs ← evalAll handle b items
    Action.build (·.newSet vs)
  | .map entries => do
    let es ← evalEntries handle b entries
    Action.build (·.newMap es)

/-! ## Writing -/

/-- A value as one of the declared type of a property, where the type is known. Null is converted
for primitive types only. -/
def convertForWrite (base property v : Value) : Action Value := do
  let t ← Resolution.resolve host handle (.type base property)
  let claimed ← Action.isResolved
  match t with
  | some t =>
    if claimed && (!v.isNull || t.isPrimitive) then Conversion.convert host v t else pure v
  | none => pure v

/-- Stores a value where the tree denotes. -/
def assign (b : Bound) (n : Node) (v : Value) : Action Unit :=
  match n with
  | .deferred body => handle (.assign b body v)
  | .dynamic body => handle (.assign b body v)
  | .name name => do
    if (← Action.context).isArgument name then Action.fail (.lambdaParameter name)
    else
      match b.expression? name with
      | some e => e.write handle v
      | none => Resolution.set host handle .null (.text name) v
  | .path base steps => do
    let (base, last) ← target host handle b base steps
    if last.isCall then Action.fail .callResult
    else
      let property ← selected handle b last.selector
      let w ← convertForWrite host handle base property v
      Resolution.set host handle base property w
  | .choice condition yes no => do
    let chosen ← branch handle b condition yes no
    handle (.assign b chosen v)
  | .sequence first second => do
    let _ ← handle (.eval b first)
    handle (.assign b second v)
  | n => Action.fail (.notAssignable n.kind)

/-! ## Types and permissions -/

/-- The type of the value of a tree. -/
def typeOfValue (b : Bound) (n : Node) : Action (Option TypeRef) := do
  let v ← handle (.eval b n)
  pure ((← Action.heap).typeOf? v)

/-- The declared type of what a tree denotes. -/
def typeOf (b : Bound) (n : Node) : Action (Option TypeRef) :=
  match n with
  | .deferred body => handle (.typeOf b body)
  | .dynamic body => handle (.typeOf b body)
  | .name name => do
    if (← Action.context).isArgument name then pure (some .object)
    else
      match b.expression? name with
      | some e => e.type? handle
      | none => Resolution.type host handle .null (.text name)
  | .path base steps => do
    let (base, last) ← target host handle b base steps
    if last.isCall then pure none
    else
      let property ← selected handle b last.selector
      Resolution.type host handle base property
  | .call ns name [args] =>
    match b.method? host.classes ns name with
    | some m => pure (some m.returns)
    | none => typeOfValue handle b (.call ns name [args])
  | .choice condition yes no => do
    let chosen ← branch handle b condition yes no
    handle (.typeOf b chosen)
  | .sequence _ second => handle (.typeOf b second)
  | n => typeOfValue handle b n

/-- Whether nothing can be stored where the tree denotes. -/
def readOnly (b : Bound) (n : Node) : Action Bool :=
  match n with
  | .deferred body => handle (.readOnly b body)
  | .dynamic body => handle (.readOnly b body)
  | .name name => do
    if (← Action.context).isArgument name then pure true
    else
      match b.expression? name with
      | some e => e.isReadOnly handle
      | none => Resolution.readOnly host handle .null (.text name)
  | .path base steps => do
    let (base, last) ← target host handle b base steps
    if last.isCall then pure true
    else
      let property ← selected handle b last.selector
      Resolution.readOnly host handle base property
  | .choice condition yes no => do
    let chosen ← branch handle b condition yes no
    handle (.readOnly b chosen)
  | .sequence _ second => handle (.readOnly b second)
  | _ => pure true

/-! ## Methods -/

/-- The method expression that a name holds. -/
def methodNamed (b : Bound) (name : String) : Action MethodExpr := do
  let v ← match b.expression? name with
    | some e => e.read host handle
    | none => Resolution.resolve host handle (.get .null (.text name))
  match v with
  | .method m => pure m
  | .null => Action.fail (.nullMethod name)
  | v => Action.fail (.notMethod name ((← Action.heap).typeName v))

/-- Calls the method that a tree names. Arguments in the tree take precedence. -/
def invoke (b : Bound) (n : Node) (types : Option (List TypeRef)) (args : List Value) :
    Action Value :=
  match n with
  | .deferred body => handle (.invoke b body types args)
  | .dynamic body => handle (.invoke b body types args)
  | .path base steps => do
    let (base, last) ← target host handle b base steps
    let method ← selected handle b last.selector
    match last.args? with
    | some own =>
      let vs ← evalAll handle b own
      Resolution.invoke host handle base method none vs
    | none => Resolution.invoke host handle base method types args
  | .name name => do
    let m ← methodNamed host handle b name
    m.invoke host handle args
  | .choice condition yes no => do
    let chosen ← branch handle b condition yes no
    handle (.invoke b chosen types args)
  | .sequence first second => do
    let _ ← handle (.eval b first)
    handle (.invoke b second types args)
  | n => Action.fail (.notInvocable n.kind)

/-- The name of the class of a value, and the methods that a call on the value may mean: for a class
also its static ones. -/
def methodsOf (h : Heap) (base : Value) : String × List Method :=
  let statics :=
    match base with
    | .cls c => (host.classes.allMethods c).filter (·.isStatic)
    | _ => []
  match h.classOf? base with
  | some c => (h.lineage.name c, statics ++ host.classes.allMethods c)
  | none => ("null", statics)

def infoOf (m : Method) : MethodInfo := ⟨m.name, m.returns, m.params⟩

/-- The method that a property of a value names. -/
def describeMethod (base property : Value) (types : Option (List TypeRef)) : Action MethodInfo := do
  let h ← Action.heap
  let name ← Action.ofExcept (Resolution.nameOf h property)
  let (owner, methods) := methodsOf host h base
  match types, methods.filter (·.name == name) with
  | none, [m] => pure (infoOf m)
  | types, _ => infoOf <$> Action.ofExcept (Overload.find h owner methods name types [])

/-- Describes the method that a tree names, without calling it. -/
def info (b : Bound) (n : Node) (types : Option (List TypeRef)) : Action (Option MethodInfo) :=
  match n with
  | .deferred body => handle (.info b body types)
  | .dynamic body => handle (.info b body types)
  | .path base steps => do
    let (base, last) ← target host handle b base steps
    if last.isCall then pure none
    else
      let property ← selected handle b last.selector
      some <$> describeMethod host base property types
  | .name name => do
    let m ← methodNamed host handle b name
    m.info handle
  | .choice condition yes no => do
    let chosen ← branch handle b condition yes no
    handle (.info b chosen types)
  | .sequence first second => do
    let _ ← handle (.eval b first)
    handle (.info b second types)
  | n => Action.fail (.namesNoMethod n.kind)

/-- One step of a task. -/
def step : {α : Type} → Task α → Action α
  | _, .eval b n => eval host handle b n
  | _, .assign b n v => assign host handle b n v
  | _, .typeOf b n => typeOf host handle b n
  | _, .readOnly b n => readOnly host handle b n
  | _, .invoke b n types args => invoke host handle b n types args
  | _, .info b n types => info host handle b n types

/-- Carries out tasks that nest at most `depth` others. -/
def run (host : Host) : Nat → Handler
  | 0, _, _ => Action.exhausted
  | depth + 1, _, task => step host (run host depth) task

/-- A depth that no sensible program reaches. -/
def depthLimit : Nat := 1000000

/-- The evaluator. -/
def evaluator (host : Host) : Handler := run host depthLimit

end ExprLang.Evaluation
