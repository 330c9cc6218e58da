import ExprLang.Heap
import ExprLang.Json

/-! Values as JSON. Texts, truth values, null and numbers of 64 bits stand for themselves; all other
values carry a tag for their kind. -/

namespace ExprLang

/-! ## Writing -/

namespace Heap

/-- The JSON of a value that nests at most `depth` cells. -/
def toJsonAt (h : Heap) : Nat → Value → Json
  | 0, _ => .null
  | depth + 1, v =>
    let items (vs : List Value) : Json := .array (vs.map (h.toJsonAt depth))
    match v with
    | .null => .null
    | .bool b => .bool b
    | .char c => .tagged "Char" (.string c.toString)
    | .byte n => .tagged "Byte" (.ofInt n.toInt)
    | .short n => .tagged "Short" (.ofInt n.toInt)
    | .int n => .tagged "Int" (.ofInt n.toInt)
    | .long n => .ofInt n.toInt
    | .bigInt n => .tagged "BigInt" (.string (toString n))
    | .float x => .tagged "Float" (.string x.toText)
    | .double x => .tagged "Double" (.string x.toText)
    | .decimal d =>
      .tagged "BigDecimal"
        (.object [("digits", .string (toString d.digits)), ("scale", .ofInt d.scale)])
    | .text s => .string s
    | .instant t => .tagged "DateTime" (.string t.toText)
    | .list a => .tagged "List" (items (h.items a))
    | .set a => .tagged "Set" (items (h.items a))
    | .map a =>
      .tagged "Map" (.array ((h.entries a).map fun e =>
        .array [h.toJsonAt depth e.1, h.toJsonAt depth e.2]))
    | .array a =>
      .tagged "Array" (.object [("of", .string (h.lineage.typeName (h.array a).1)),
        ("items", items (h.array a).2)])
    | .object a =>
      match h.object? a with
      | none => .null
      | some o =>
        .tagged "Object" (.object [("class", .string (h.lineage.name o.owner)),
          ("id", .string o.id),
          ("fields", .object (o.fields.map fun e => (e.1, h.toJsonAt depth e.2)))])
    | .cls c => .tagged "Class" (.string (h.lineage.name c))
    | .lambda f =>
      .tagged "Lambda" (.object [("params", .strings f.params), ("body", .string f.body.kind)])
    | .method m => .tagged "Method" (.string m.text)

/-- The JSON of a value. -/
def toJson (h : Heap) (v : Value) : Json := h.toJsonAt (h.cells.size + 1) v

end Heap

/-! ## Reading -/

namespace Value

/-- What the names in values refer to. -/
structure Names where
  registry : Registry
  bean? : String → Option Value

/-- Values are read into a heap; a text that is no value has none. -/
abbrev Reading := StateT Heap Option

/-- The integer of so many bits that a number or a text stands for. -/
def wholeOfJson? (bits : Nat) : Json → Option Int
  | .number t => (IntegerText.ofWidth bits t).toOption
  | .string t => (IntegerText.ofWidth bits t).toOption
  | _ => none

/-- The number that a text stands for. -/
def binaryOfJson? (f : FloatFormat) (j : Json) : Option (Binary f) :=
  j.string?.bind fun s => (Binary.ofText s).toOption

/-- Allocates a value. -/
def allocated (f : Heap → Value × Heap) : Reading Value := modifyGet f

variable (ns : Names) (read : Json → Reading Value)

/-- An entry of a map. -/
def entryOfJson (j : Json) : Reading (Value × Value) :=
  match j with
  | .array [k, v] => do
    let k ← read k
    let v ← read v
    pure (k, v)
  | _ => failure

/-- A host object. -/
def objectOfJson (j : Json) : Reading Value := do
  let owner ← (j.member? "class").bind Json.string?
  let owner ← ns.registry.resolve owner
  let fields ← ((j.member? "fields").elim [] Json.members).mapM fun (name, x) => do
    let v ← read x
    pure (name, v)
  let o : HostObject :=
    { owner := owner
      id := ((j.member? "id").bind Json.string?).getD ""
      order := (j.member? "order").bind Json.int?
      fields := fields.foldl (fun b (name, v) => b.insert name v) [] }
  allocated (·.newObject o)

/-- The value with a tag, whose parts are read by `read`. -/
def ofTag (tag : String) (j : Json) : Reading Value :=
  match tag with
  | "Byte" => do pure (.byte (Int8.ofInt (← wholeOfJson? 8 j)))
  | "Short" => do pure (.short (Int16.ofInt (← wholeOfJson? 16 j)))
  | "Int" => do pure (.int (Int32.ofInt (← wholeOfJson? 32 j)))
  | "Long" => do pure (.long (Int64.ofInt (← wholeOfJson? 64 j)))
  | "Char" => do pure (.char (← (← j.string?).toList.head?))
  | "BigInt" => do pure (.bigInt (← (IntegerText.unbounded (← j.string?)).toOption))
  | "Float" => do pure (.float (← binaryOfJson? _ j))
  | "Double" => do pure (.double (← binaryOfJson? _ j))
  | "BigDecimal" => do
    let digits ← (j.member? "digits").bind Json.string?
    let digits ← (IntegerText.unbounded digits).toOption
    pure (.decimal ⟨digits, ((j.member? "scale").bind Json.int?).getD 0⟩)
  | "DateTime" => do pure (.instant (← Instant.ofText? (← j.string?)))
  | "List" => do
    let vs ← (← j.array?).mapM read
    allocated (·.newList vs)
  | "Set" => do
    let vs ← (← j.array?).mapM read
    allocated (·.newSet vs)
  | "Map" => do
    let es ← (← j.array?).mapM (entryOfJson read)
    allocated (·.newMap es)
  | "Array" => do
    let component ← (j.member? "of").bind Json.string?
    let component ← ns.registry.resolveType (← get).lineage component
    let items ← (j.member? "items").bind Json.array?
    let vs ← items.mapM read
    allocated (·.newArray component vs)
  | "Class" => do pure (.cls (← ns.registry.resolve (← j.string?)))
  | "Object" => objectOfJson ns read j
  | "Bean" => do ns.bean? (← j.string?)
  | _ => failure

/-- The value of JSON that nests at most `depth` deep. -/
def ofJsonAt : Nat → Json → Reading Value
  | 0, _ => failure
  | depth + 1, j =>
    match j with
    | .null => pure .null
    | .bool b => pure (.bool b)
    | .string s => pure (.text s)
    | .number _ => do pure (.long (Int64.ofInt (← wholeOfJson? 64 j)))
    | .object [(tag, x)] => ofTag ns (ofJsonAt depth) tag x
    | _ => failure

/-- The value that JSON stands for. -/
def ofJson (j : Json) : Reading Value := ofJsonAt ns (j.depth + 1) j

end Value

end ExprLang
