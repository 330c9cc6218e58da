import ExprLang.Lineage
import ExprLang.Value

/-! The cells that values share, with the two readings of a value that need them: its text and
strict equality. -/

namespace ExprLang

/-- A host object: its class, the name it shows, its place in the order of such objects if it has
one, and its fields. -/
structure HostObject where
  owner : ClassId
  id : String
  order : Option Int
  fields : Bindings Value

inductive Cell where
  /-- The items of a list or a set. -/
  | items (vs : List Value)
  /-- The entries of a map in the order of their keys' arrival. -/
  | entries (es : List (Value × Value))
  /-- The items of an array, all of one type. -/
  | array (component : TypeRef) (vs : List Value)
  | object (o : HostObject)

/-- All cells, and the classes that values refer to. -/
structure Heap where
  lineage : Lineage
  cells : Array Cell

namespace Heap

def alloc (h : Heap) (c : Cell) : Address × Heap :=
  (h.cells.size, { h with cells := h.cells.push c })

def put (h : Heap) (a : Address) (c : Cell) : Heap := { h with cells := h.cells.setIfInBounds a c }

def items (h : Heap) (a : Address) : List Value :=
  match h.cells[a]? with
  | some (.items vs) => vs
  | _ => []

def entries (h : Heap) (a : Address) : List (Value × Value) :=
  match h.cells[a]? with
  | some (.entries es) => es
  | _ => []

/-- The component type and the items of an array. -/
def array (h : Heap) (a : Address) : TypeRef × List Value :=
  match h.cells[a]? with
  | some (.array c vs) => (c, vs)
  | _ => (.object, [])

def object? (h : Heap) (a : Address) : Option HostObject :=
  match h.cells[a]? with
  | some (.object o) => some o
  | _ => none

/-- The class of a host object. -/
def owner (h : Heap) (a : Address) : ClassId :=
  match h.object? a with
  | some o => o.owner
  | none => .builtin .object

/-! ## Types -/

/-- The type of a value that overloads and conversions see; null has none. -/
def typeOf? (h : Heap) : Value → Option TypeRef
  | .null => none
  | .bool _ => some (.boxed .boolean)
  | .char _ => some (.boxed .char)
  | .byte _ => some (.boxed .byte)
  | .short _ => some (.boxed .short)
  | .int _ => some (.boxed .int)
  | .long _ => some (.boxed .long)
  | .float _ => some (.boxed .float)
  | .double _ => some (.boxed .double)
  | .bigInt _ => some .bigInteger
  | .decimal _ => some .bigDecimal
  | .text _ => some .string
  | .instant _ => some .instant
  | .list _ => some .list
  | .set _ => some .set
  | .map _ => some .map
  | .array a => some (.array (h.array a).1)
  | .object a => some (.named (h.owner a))
  | .cls _ => some .cls
  | .lambda _ => some .lambda
  | .method _ => some .methodExpression

/-- The name of the type of a value in messages. -/
def typeName (h : Heap) (v : Value) : String :=
  match h.typeOf? v with
  | some t => h.lineage.typeName t
  | none => "null"

/-- The class that describes the methods of a value. -/
def classOf? (h : Heap) : Value → Option ClassId
  | .null => none
  | .bool _ => some (.builtin .boolean)
  | .char _ => some (.builtin .character)
  | .byte _ => some (.builtin .byte)
  | .short _ => some (.builtin .short)
  | .int _ => some (.builtin .integer)
  | .long _ => some (.builtin .long)
  | .bigInt _ => some (.builtin .bigInteger)
  | .float _ => some (.builtin .float)
  | .double _ => some (.builtin .double)
  | .decimal _ => some (.builtin .bigDecimal)
  | .text _ => some (.builtin .string)
  | .instant _ => some (.builtin .instant)
  | .list _ => some (.builtin .list)
  | .set _ => some (.builtin .set)
  | .map _ => some (.builtin .map)
  | .cls _ => some (.builtin .cls)
  | .lambda _ => some (.builtin .lambda)
  | .object a => some (h.owner a)
  | .array _ => some (.builtin .object)
  | .method _ => some (.builtin .object)

/-! ## Text -/

/-- Texts between two signs, separated by commas. -/
def bracketed (opening closing : String) (texts : List String) : String :=
  opening ++ String.intercalate ", " texts ++ closing

/-- The text of a value that nests at most `depth` cells. -/
def displayAt (h : Heap) : Nat → Value → String
  | 0, _ => ""
  | depth + 1, v =>
    match v with
    | .null => "null"
    | .bool b => if b then "true" else "false"
    | .char c => c.toString
    | .byte n => toString n.toInt
    | .short n => toString n.toInt
    | .int n => toString n.toInt
    | .long n => toString n.toInt
    | .bigInt n => toString n
    | .float x => x.toText
    | .double x => x.toText
    | .decimal d => d.toText
    | .text s => s
    | .instant t => t.toText
    | .list a => bracketed "[" "]" ((h.items a).map (h.displayAt depth))
    | .set a => bracketed "[" "]" ((h.items a).map (h.displayAt depth))
    | .array a => bracketed "[" "]" ((h.array a).2.map (h.displayAt depth))
    | .map a =>
      bracketed "\x7b" "\x7d"
        ((h.entries a).map fun e => h.displayAt depth e.1 ++ "=" ++ h.displayAt depth e.2)
    | .object a =>
      h.lineage.simpleName (h.owner a) ++ "#" ++
        (match h.object? a with | some o => o.id | none => "")
    | .cls c => "class " ++ h.lineage.name c
    | .lambda _ => "LambdaExpression"
    | .method m => m.text

/-- The text of a value. No value without cycles nests more cells than there are. -/
def display (h : Heap) (v : Value) : String := h.displayAt (h.cells.size + 1) v

/-! ## Strict equality -/

/-- The lists have the same length and are related item by item. -/
def pairwise {α : Type} (r : α → α → Bool) : List α → List α → Bool
  | [], [] => true
  | x :: xs, y :: ys => r x y && pairwise r xs ys
  | _, _ => false

/-- The same kind of value and the same contents, for values that nest at most `depth` cells.
Sets and maps are compared without regard to order. -/
def equalAt (h : Heap) : Nat → Value → Value → Bool
  | 0, _, _ => false
  | depth + 1, v, w =>
    match v, w with
    | .null, .null => true
    | .bool a, .bool b => a == b
    | .char a, .char b => a == b
    | .byte a, .byte b => a == b
    | .short a, .short b => a == b
    | .int a, .int b => a == b
    | .long a, .long b => a == b
    | .bigInt a, .bigInt b => a == b
    | .float a, .float b => a.equal b
    | .double a, .double b => a.equal b
    | .decimal a, .decimal b => a.equal b
    | .text a, .text b => a == b
    | .instant a, .instant b => a == b
    | .list a, .list b => a == b || pairwise (h.equalAt depth) (h.items a) (h.items b)
    | .set a, .set b =>
      a == b ||
        ((h.items a).length == (h.items b).length &&
          (h.items a).all fun x => (h.items b).any fun y => h.equalAt depth y x)
    | .map a, .map b =>
      a == b ||
        ((h.entries a).length == (h.entries b).length &&
          (h.entries a).all fun e => (h.entries b).any fun f =>
            h.equalAt depth f.1 e.1 && h.equalAt depth f.2 e.2)
    | .array a, .array b =>
      a == b || pairwise (h.equalAt depth) (h.array a).2 (h.array b).2
    | .object a, .object b => a == b
    | .cls a, .cls b => a == b
    | .lambda f, .lambda g => f.same g
    | .method m, .method n => m.same n
    | _, _ => false

/-- Strict equality of values. -/
def equal (h : Heap) (v w : Value) : Bool := h.equalAt (h.cells.size + 1) v w

/-- A value equal to `v` is among these. -/
def holds (h : Heap) (vs : List Value) (v : Value) : Bool := vs.any fun w => h.equal w v

/-! ## Building collections -/

/-- The items without those that equal an earlier one. -/
def distinct (h : Heap) (vs : List Value) : List Value :=
  vs.foldl (fun kept v => if h.holds kept v then kept else kept ++ [v]) []

/-- The value of the first key that equals `k`. -/
def lookup? (h : Heap) (es : List (Value × Value)) (k : Value) : Option Value :=
  (es.find? fun e => h.equal e.1 k).map (·.2)

/-- The entries with `v` at the first key that equals `k`, or at a new key behind all others. -/
def putEntry (h : Heap) (es : List (Value × Value)) (k v : Value) : List (Value × Value) :=
  match es with
  | [] => [(k, v)]
  | e :: rest => if h.equal e.1 k then (e.1, v) :: rest else e :: h.putEntry rest k v

def newList (h : Heap) (vs : List Value) : Value × Heap :=
  let (a, h) := h.alloc (.items vs)
  (.list a, h)

def newSet (h : Heap) (vs : List Value) : Value × Heap :=
  let (a, h) := h.alloc (.items (h.distinct vs))
  (.set a, h)

def newMap (h : Heap) (es : List (Value × Value)) : Value × Heap :=
  let (a, h) := h.alloc (.entries (es.foldl (fun kept e => h.putEntry kept e.1 e.2) []))
  (.map a, h)

def newArray (h : Heap) (component : TypeRef) (vs : List Value) : Value × Heap :=
  let (a, h) := h.alloc (.array component vs)
  (.array a, h)

def newObject (h : Heap) (o : HostObject) : Value × Heap :=
  let (a, h) := h.alloc (.object o)
  (.object a, h)

end Heap

end ExprLang
