import ExprLang.Builtin.Argument

/-! Methods of lists, sets, maps, points in time and lambdas. -/

namespace ExprLang.Builtin

/-- How many members a collection has. -/
def ofItems (name : String) (returns : TypeRef) (f : List Value → Value) : Declaration :=
  query name [] returns fun h self _ => do return f (← asItems h self)

def holdsItem : Declaration :=
  query "contains" [.object] booleanType fun h self args => do
    let items ← asItems h self
    return .bool (h.holds items (← argument args 0))

def itemCount : List Declaration :=
  [ofItems "size" intType fun vs => intOf vs.length,
    ofItems "isEmpty" booleanType fun vs => .bool vs.isEmpty]

def listMethods : List Declaration :=
  itemCount ++
    [query "get" [intType] .object fun h self args => do
        let items ← asItems h self
        let i ← asIndex h (← argument args 0)
        match items[i]? with
        | some v => pure v
        | none =>
          fail ("index " ++ toString i ++ " out of bounds for length " ++ toString items.length),
      holdsItem,
      command "add" [.object] booleanType fun h self args =>
        match self with
        | .list a => do
          let v ← argument args 0
          return (.bool true, h.put a (.items (h.items a ++ [v])))
        | v => mismatch h "List" v]

def setMethods : List Declaration :=
  itemCount ++
    [holdsItem,
      command "add" [.object] booleanType fun h self args =>
        match self with
        | .set a => do
          let v ← argument args 0
          if h.holds (h.items a) v then pure (.bool false, h)
          else pure (.bool true, h.put a (.items (h.items a ++ [v])))
        | v => mismatch h "Set" v]

/-- A result computed from the entries of a map. -/
def ofEntries (name : String) (returns : TypeRef) (f : List (Value × Value) → Value) : Declaration :=
  query name [] returns fun h self _ => do return f (← asEntries h self)

def mapMethods : List Declaration :=
  [ofEntries "size" intType fun es => intOf es.length,
    ofEntries "isEmpty" booleanType fun es => .bool es.isEmpty,
    query "get" [.object] .object fun h self args => do
      let k ← argument args 0
      return (h.lookup? (← asEntries h self) k).getD .null,
    query "containsKey" [.object] booleanType fun h self args => do
      let k ← argument args 0
      return .bool (h.lookup? (← asEntries h self) k).isSome,
    command "put" [.object, .object] .object fun h self args =>
      match self with
      | .map a => do
        let k ← argument args 0
        let v ← argument args 1
        let es := h.entries a
        return ((h.lookup? es k).getD .null, h.put a (.entries (h.putEntry es k v)))
      | v => mismatch h "Map" v,
    command "keySet" [] .set fun h self _ => do
      return h.newSet ((← asEntries h self).map (·.1)),
    command "values" [] .list fun h self _ => do
      return h.newList ((← asEntries h self).map (·.2))]

/-! ## Points in time -/

def asInstant (h : Heap) (v : Value) : Except Failure Instant :=
  match v with
  | .instant t => .ok t
  | v => mismatch h "Instant" v

def instantMethods : List Declaration :=
  [query "toEpochMilli" [] longType fun h self _ => do
      return .long (Int64.ofInt (← asInstant h self).toMillis),
    query "getEpochSecond" [] longType fun h self _ => do
      return .long (Int64.ofInt (← asInstant h self).second),
    function "parse" [.string] .instant fun h args => do
      match Coercion.toInstant h (← argument args 0) with
      | .ok (some t) => pure (.instant t)
      | .ok none => pure .null
      | .error e => throw (.fault e)]

/-! ## Lambdas -/

/-- Calls a lambda with the items of an array, where the first argument is one, else with the
arguments themselves. -/
def invokeLambda (self : Value) (args : List Value) : HostCode :=
  .read fun h =>
    match self with
    | .lambda f =>
      let args :=
        match args with
        | .array a :: _ => (h.array a).2
        | args => args
      .call f args .conclude
    | v => .finish (mismatch h "LambdaExpression" v)

def lambdaMethods : List Declaration :=
  [{ name := "invoke", fixed := [], gathers := some .object, body := some invokeLambda }]

end ExprLang.Builtin
