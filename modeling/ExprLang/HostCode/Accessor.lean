import ExprLang.HostCode

/-! Code that methods of host classes often consist of. -/

namespace ExprLang.HostCode

/-- Continues with a host object. -/
def withObject (self : Value) (next : Heap → Address → HostObject → HostCode) : HostCode :=
  read fun h =>
    match self with
    | .object a =>
      match h.object? a with
      | some o => next h a o
      | none => fail "no receiver"
    | _ => fail "no receiver"

/-- Reads a field; one that was never written is null. -/
def getField (name : String) (self : Value) : HostCode :=
  withObject self fun _ _ o => succeed ((o.fields.find? name).getD .null)

/-- Writes a field. -/
def setField (name : String) (self v : Value) : HostCode :=
  withObject self fun h a o =>
    write (h.put a (.object { o with fields := o.fields.insert name v })) (succeed .null)

/-- Tells the types and the texts of the arguments after a word. -/
def echo (word : String) (args : List Value) : HostCode :=
  read fun h =>
    let shown := args.map fun v => h.typeName v ++ ":" ++ h.display v
    succeed (.text (word ++ "(" ++ String.intercalate "," shown ++ ")"))

/-- Calls the lambda that comes first with the other arguments. -/
def callFirst : List Value → HostCode
  | .lambda f :: args => call f args conclude
  | _ => fail "not a lambda"

/-- Makes an object whose fields hold the arguments in order. -/
def construct (owner : ClassId) (id : String) (fields : List String) (args : List Value) : HostCode :=
  change fun h =>
    let held := fields.zipIdx.foldl (fun b (name, i) => Bindings.insert b name (args.getD i .null)) []
    .ok (h.newObject ⟨owner, id, none, held⟩)

/-- The name of the declared type of an expression, and whether it is read-only. -/
def query (text : String) : HostCode :=
  typeOf text fun
    | .error f => conclude (.error f)
    | .ok t => readOnly text fun
      | .error f => conclude (.error f)
      | .ok b => change fun h =>
        .ok (h.newList [t.elim .null fun t => .text (h.lineage.typeName t), .bool b])

end ExprLang.HostCode
