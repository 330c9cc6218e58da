import ExprLang.Method
import ExprLang.Value.Coercion

/-! Receivers and arguments of the methods of builtin classes. -/

namespace ExprLang.Builtin

variable (h : Heap)

/-- A failure with this text. -/
def fail {α : Type} (text : String) : Except Failure α := .error (.plain text)

def argument (args : List Value) (i : Nat) : Except Failure Value :=
  match args[i]? with
  | some v => .ok v
  | none => fail ("missing argument " ++ toString i)

/-- The failure of a value that is not of the wanted kind. -/
def mismatch {α : Type} (wanted : String) (v : Value) : Except Failure α :=
  fail ("expected " ++ wanted ++ ", found " ++ h.typeName v)

def asText (v : Value) : Except Failure String :=
  match v with
  | .text s => .ok s
  | v => mismatch h "String" v

/-- An integer of at most 64 bits, or the code of a character. -/
def asWord (v : Value) : Except Failure Int64 :=
  match v with
  | .byte n => .ok n.toInt64
  | .short n => .ok n.toInt64
  | .int n => .ok n.toInt64
  | .long n => .ok n
  | .char c => .ok (Int64.ofNat c.toNat)
  | v => mismatch h "integer" v

def asDouble (v : Value) : Except Failure Double :=
  match v with
  | .double x => .ok x
  | .float x => .ok x.convert
  | v => (fun n => .ofInt n.toInt) <$> asWord h v

def asBig (v : Value) : Except Failure Int :=
  (Coercion.toTarget h Coercion.big v).mapError .fault

def asDecimal (v : Value) : Except Failure Decimal :=
  (Coercion.toTarget h Coercion.decimal v).mapError .fault

/-- A position in a text or a list. -/
def asIndex (v : Value) : Except Failure Nat := do
  let n ← asWord h v
  if n < 0 then fail ("index out of range: " ++ toString n.toInt) else pure n.toInt.toNat

/-- The members of a list or a set. -/
def asItems (v : Value) : Except Failure (List Value) :=
  match v with
  | .list a => .ok (h.items a)
  | .set a => .ok (h.items a)
  | v => mismatch h "collection" v

def asEntries (v : Value) : Except Failure (List (Value × Value)) :=
  match v with
  | .map a => .ok (h.entries a)
  | v => mismatch h "Map" v

/-! ## Declaring methods -/

/-- A method of an object that changes nothing. -/
def query (name : String) (params : List TypeRef) (returns : TypeRef)
    (f : Heap → Value → List Value → Except Failure Value) : Declaration where
  name := name
  fixed := params
  returns := returns
  body := some fun self args => .look fun h => f h self args

/-- A method of an object that may change the heap. -/
def command (name : String) (params : List TypeRef) (returns : TypeRef)
    (f : Heap → Value → List Value → Except Failure (Value × Heap)) : Declaration where
  name := name
  fixed := params
  returns := returns
  body := some fun self args => .change fun h => f h self args

/-- A method without a receiver. -/
def function (name : String) (params : List TypeRef) (returns : TypeRef)
    (f : Heap → List Value → Except Failure Value) : Declaration where
  name := name
  fixed := params
  returns := returns
  isStatic := true
  body := some fun _ args => .look fun h => f h args

def constructor (params : List TypeRef) (f : Heap → List Value → Except Failure Value) :
    Declaration where
  name := constructorName
  fixed := params
  isStatic := true
  body := some fun _ args => .look fun h => f h args

/-- The first argument itself. -/
def first (_ : Heap) (args : List Value) : Except Failure Value := argument args 0

/-- Words of 32 bits by the low bits of wider ones. -/
def int32 (n : Int64) : Value := .int n.toInt32

def intOf (n : Nat) : Value := .int (Int32.ofNat n)

/-- A fixed type of whole or floating numbers. -/
abbrev intType : TypeRef := .primitive .int

abbrev longType : TypeRef := .primitive .long

abbrev doubleType : TypeRef := .primitive .double

abbrev booleanType : TypeRef := .primitive .boolean

end ExprLang.Builtin
