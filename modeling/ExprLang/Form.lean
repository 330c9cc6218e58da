import ExprLang.Factory

/-! Expressions apart from any context: their texts, the names of types, and the functions and
variables that they were built with. -/

namespace ExprLang

/-- A function by its name in the expression, and its class, name and parameters. -/
structure FunctionForm where
  ns : String
  name : String
  cls : String
  method : String
  params : List String
deriving DecidableEq

inductive Form where
  | value (text : String) (expected : Option String) (functions : List FunctionForm)
      (vars : List (String × Form))
  /-- A value of the host as text, with the name of its type. -/
  | literal (value type expected : Option String)
  | method (text : String) (returns : Option String) (params : Option (List String))
      (functions : List FunctionForm) (vars : List (String × Form))

instance : Inhabited Form := ⟨.literal none none none⟩

/-! ## From expressions -/

/-- The parts of a key before and after its first colon. -/
def splitKey (key : String) : String × String :=
  match key.toList.dropWhile (· != ':') with
  | [] => ("", key)
  | _ :: name => (String.ofList (key.toList.takeWhile (· != ':')), String.ofList name)

namespace Form

/-- The functions in the order of their keys. -/
def ofFunctions (t : ClassTable) (functions : Bindings MethodId) : List FunctionForm :=
  functions.filterMap fun (key, id) =>
    (t.method? id).map fun m =>
      let (ns, name) := splitKey key
      ⟨ns, name, m.owner t.lineage, m.name, m.params.map t.lineage.typeName⟩

/-- Values that a text and a type make up. -/
def isScalar : Value → Bool
  | .null => true | .bool _ => true | .char _ => true | .byte _ => true | .short _ => true
  | .int _ => true | .long _ => true | .bigInt _ => true | .float _ => true | .double _ => true
  | .decimal _ => true | .text _ => true | .instant _ => true
  | _ => false

def ofLiteral (h : Heap) (v : Value) (expected : Option TypeRef) : Except Fault Form :=
  if isScalar v then
    .ok (.literal (if v.isNull then none else some (h.display v))
      ((h.typeOf? v).map h.lineage.typeName) (expected.map h.lineage.typeName))
  else .error (.notPortable (h.typeName v))

mutual

def ofValueExpr (t : ClassTable) (h : Heap) : ValueExpr → Except Fault Form
  | .parsed text _ (.mk functions vars) expected => do
    let forms ← ofVariables t h vars
    pure (.value text (expected.map t.lineage.typeName) (ofFunctions t functions) forms)
  | .literal v expected => ofLiteral h v expected

def ofVariables (t : ClassTable) (h : Heap) :
    List (String × ValueExpr) → Except Fault (List (String × Form))
  | [] => .ok []
  | (name, e) :: rest => do
    let form ← ofValueExpr t h e
    let forms ← ofVariables t h rest
    pure ((name, form) :: forms)

end

def ofMethodExpr (t : ClassTable) (h : Heap) (m : MethodExpr) : Except Fault Form := do
  let bound := m.bound?.getD .empty
  let forms ← ofVariables t h bound.vars
  pure (.method m.text (m.returns?.map t.lineage.typeName)
    (m.params?.map (·.map t.lineage.typeName)) (ofFunctions t bound.functions) forms)

/-! ## Back to expressions -/

variable (t : ClassTable) (r : Registry)

def typeNamed (name : String) : Except Fault TypeRef :=
  match r.resolveType t.lineage name with
  | some type => .ok type
  | none => .error (.unknownType name)

def typeNamed? (name : Option String) : Except Fault (Option TypeRef) := name.mapM (typeNamed t r)

/-- The method that a form names. -/
def toMethod (f : FunctionForm) : Except Fault Method :=
  match r.resolve f.cls with
  | none => .error (.unknownClass f.cls)
  | some c =>
    let found := (t.allMethods c).find? fun m =>
      m.name == f.method && m.params.map t.lineage.typeName == f.params
    match found with
    | some m => .ok m
    | none => .error (.lostMethod f.cls f.method f.params)

def toFunctions (fs : List FunctionForm) : Except Fault (Bindings MethodId) :=
  fs.foldlM (fun b f => do
    let m ← toMethod t r f
    pure (b.insert (Bound.functionKey f.ns f.name) m.id)) []

/-- The value that a text stands for in a type. -/
def toLiteral (content typeName : Option String) : Except Fault Value :=
  match content, typeName with
  | some s, some name => do
    Coercion.toType ⟨t.lineage, #[]⟩ (← typeNamed t r name) (.text s)
  | some s, none => .ok (.text s)
  | none, _ => .ok .null

mutual

def toValueExpr : Form → Building ValueExpr
  | .value text expected functions vars => do
    let node ← Factory.parse text
    let expected ← Factory.ofExcept (typeNamed? t r expected)
    let functions ← Factory.ofExcept (toFunctions t r functions)
    let vars ← toVariables [] vars
    pure (.parsed text node (.mk functions vars) expected)
  | .literal content typeName expected => do
    let v ← Factory.ofExcept (toLiteral t r content typeName)
    let expected ← Factory.ofExcept (typeNamed? t r expected)
    pure (.literal v expected)
  | .method _ _ _ _ _ => throw .holdsMethod

def toVariables (b : Bindings ValueExpr) : List (String × Form) → Building (Bindings ValueExpr)
  | [] => pure b
  | (name, form) :: rest => do
    let e ← toValueExpr form
    toVariables (b.insert name e) rest

end

def toMethodExpr : Form → Building MethodExpr
  | .method text returns params functions vars => do
    let returns ← Factory.ofExcept (typeNamed? t r returns)
    let params ← Factory.ofExcept (params.mapM (·.mapM (typeNamed t r)))
    match ← Factory.parse text with
    | .plain content => pure (.plain content returns params)
    | node => do
      let functions ← Factory.ofExcept (toFunctions t r functions)
      let vars ← toVariables t r [] vars
      pure (.parsed text node (.mk functions vars) returns params)
  | _ => throw .holdsValue

end Form

end ExprLang
