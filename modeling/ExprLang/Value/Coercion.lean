import ExprLang.Fault
import ExprLang.Heap
import ExprLang.Number.SignedBytes

/-! Values as values of another type. Narrowing keeps the low bits of integers and the nearest
floating number; a floating number becomes the nearest 64 bit integer toward zero first. -/

namespace ExprLang

/-- Targets of a conversion to a number. -/
inductive NumberKind where
  | byte | short | int | long | bigInt | float | double | decimal
deriving DecidableEq, Inhabited, Repr

namespace NumberKind

def name : NumberKind → String
  | byte => "Byte" | short => "Short" | int => "Integer" | long => "Long"
  | bigInt => "BigInteger" | float => "Float" | double => "Double" | decimal => "BigDecimal"

/-- The zero of a kind. -/
def zero : NumberKind → Value
  | byte => .byte 0 | short => .short 0 | int => .int 0 | long => .long 0
  | bigInt => .bigInt 0 | float => .float (.zero false) | double => .double (.zero false)
  | decimal => .decimal (.ofInt 0)

end NumberKind

/-- The number that a value holds, in the widest form of its family. -/
inductive Numeral where
  | word (n : Int64)
  | floating (x : Double)
  | big (n : Int)
  | decimal (d : Decimal)

namespace Numeral

/-- The 64 bit integer nearest to a floating number toward zero. -/
def ofFloating (x : Double) : Int64 :=
  match x with
  | .nan => 0
  | .infinite negative => if negative then Int64.minValue else Int64.maxValue
  | x =>
    let n := x.truncate?.getD 0
    Int64.ofInt (max Int64.minValue.toInt (min Int64.maxValue.toInt n))

def toWord : Numeral → Int64
  | word n => n
  | floating x => ofFloating x
  | big n => lowWord n
  | decimal d => lowWord d.truncate

def toDouble : Numeral → Double
  | word n => .ofInt n.toInt
  | floating x => x
  | big n => .ofInt n
  | decimal d => .ofDecimalNumber d

/-- The integer nearest toward zero. -/
def toBig? : Numeral → Option Int
  | word n => some n.toInt
  | floating x => x.truncate?
  | big n => some n
  | decimal d => some d.truncate

/-- The decimal number; that of a floating number has the digits of its text. -/
def toDecimal? : Numeral → Option Decimal
  | word n => some (.ofInt n.toInt)
  | floating x => if x.isFinite then (Decimal.ofText x.toText).toOption else none
  | big n => some (.ofInt n)
  | decimal d => some d

end Numeral

/-- The number that a value holds; a character holds its code. -/
def Value.numeral? : Value → Option Numeral
  | byte n => some (.word n.toInt64)
  | short n => some (.word n.toInt64)
  | int n => some (.word n.toInt64)
  | long n => some (.word n)
  | char c => some (.word (Int64.ofNat c.toNat))
  | float x => some (.floating x.convert)
  | double x => some (.floating x)
  | bigInt n => some (.big n)
  | decimal d => some (.decimal d)
  | _ => none

namespace Coercion

/-- A text counts as a floating number where a number is wanted. -/
def isFloatText (s : String) : Bool :=
  decide (1 < s.utf8ByteSize) && s.toList.any fun c => c == '.' || c == 'e' || c == 'E'

/-- The values of a kind of numbers: their zero, how a text is read and how a number becomes
one. -/
structure Target (α : Type) where
  name : String
  zero : α
  ofText? : String → Option α
  ofNumeral? : Numeral → Option α

def byte : Target Int8 where
  name := "Byte"
  zero := 0
  ofText? s := (IntegerText.ofWidth 8 s).toOption.map Int8.ofInt
  ofNumeral? n := some n.toWord.toInt8

def short : Target Int16 where
  name := "Short"
  zero := 0
  ofText? s := (IntegerText.ofWidth 16 s).toOption.map Int16.ofInt
  ofNumeral? n := some n.toWord.toInt16

def int : Target Int32 where
  name := "Integer"
  zero := 0
  ofText? s := (IntegerText.ofWidth 32 s).toOption.map Int32.ofInt
  ofNumeral? n := some n.toWord.toInt32

def long : Target Int64 where
  name := "Long"
  zero := 0
  ofText? s := (IntegerText.ofWidth 64 s).toOption.map Int64.ofInt
  ofNumeral? n := some n.toWord

def big : Target Int where
  name := "BigInteger"
  zero := 0
  ofText? s := (IntegerText.unbounded s).toOption
  ofNumeral? n := n.toBig?

def float : Target Single where
  name := "Float"
  zero := .zero false
  ofText? s := (Binary.ofText s).toOption
  ofNumeral? n := some n.toDouble.convert

def double : Target Double where
  name := "Double"
  zero := .zero false
  ofText? s := (Binary.ofText s).toOption
  ofNumeral? n := some n.toDouble

def decimal : Target Decimal where
  name := "BigDecimal"
  zero := .ofInt 0
  ofText? s := (Decimal.ofText s).toOption
  ofNumeral? n := n.toDecimal?

variable {α : Type} (h : Heap)

/-- The fault of a value without a counterpart in the type of this name. -/
def refusal (v : Value) (target : String) : Fault :=
  .coercion (h.display v) (h.typeName v) target

/-- A value as a number. Null and the empty text are zero, other texts are read. -/
def toTarget (t : Target α) (v : Value) : Except Fault α :=
  let found :=
    match v with
    | .null => some t.zero
    | .text s => if s.isEmpty then some t.zero else t.ofText? s
    | v => v.numeral?.bind t.ofNumeral?
  match found with
  | some a => .ok a
  | none => .error (refusal h v t.name)

def toNumber (k : NumberKind) (v : Value) : Except Fault Value :=
  match k with
  | .byte => Value.byte <$> toTarget h byte v
  | .short => Value.short <$> toTarget h short v
  | .int => Value.int <$> toTarget h int v
  | .long => Value.long <$> toTarget h long v
  | .bigInt => Value.bigInt <$> toTarget h big v
  | .float => Value.float <$> toTarget h float v
  | .double => Value.double <$> toTarget h double v
  | .decimal => Value.decimal <$> toTarget h decimal v

/-- Small letters of the Latin alphabet for its capitals. -/
def asciiLower (s : String) : String := String.ofList (s.toList.map Char.toLower)

def toBool (v : Value) : Except Fault Bool :=
  match v with
  | .null => .ok false
  | .bool b => .ok b
  | .text s => .ok (asciiLower s == "true")
  | v => .error (refusal h v "Boolean")

/-- The character with this code. -/
def char? (code : Nat) : Option Char :=
  if hc : code.isValidChar then some (Char.ofNatAux code hc) else none

/-- A value as a character. Of a number the low 16 bits count. -/
def toChar (v : Value) : Except Fault Char :=
  match v with
  | .null => .ok '\x00'
  | .char c => .ok c
  | .text s => .ok (s.toList.headD '\x00')
  | v =>
    match v.numeral?.bind fun n => char? n.toWord.toUInt64.toUInt16.toNat with
    | some c => .ok c
    | none => .error (refusal h v "Character")

/-- The text of a value; null has the empty one. -/
def toText (v : Value) : String :=
  match v with
  | .null => ""
  | v => h.display v

/-- A value as a point in time; null stays. -/
def toInstant (v : Value) : Except Fault (Option Instant) :=
  match v with
  | .null => .ok none
  | .instant t => .ok (some t)
  | .text s =>
    match Instant.ofText? s with
    | some t => .ok (some t)
    | none => .error (refusal h v "Instant")
  | v => .error (refusal h v "Instant")

def toPrimitive (p : Primitive) (v : Value) : Except Fault Value :=
  match p with
  | .boolean => Value.bool <$> toBool h v
  | .char => Value.char <$> toChar h v
  | .byte => toNumber h .byte v
  | .short => toNumber h .short v
  | .int => toNumber h .int v
  | .long => toNumber h .long v
  | .float => toNumber h .float v
  | .double => toNumber h .double v

/-- A value as it is, where the type takes it. -/
def toReference (t : TypeRef) (v : Value) : Except Fault Value :=
  match h.typeOf? v with
  | none => .ok .null
  | some s =>
    if h.lineage.assignable t s then .ok v else .error (refusal h v (h.lineage.typeName t))

/-- A value as one of the declared type. -/
def toType (t : TypeRef) (v : Value) : Except Fault Value :=
  match t with
  | .void => .ok .null
  | .object => .ok v
  | .string => .ok (.text (toText h v))
  | .primitive p => toPrimitive h p v
  | .boxed p => if v.isNull then .ok .null else toPrimitive h p v
  | .bigInteger => if v.isNull then .ok .null else toNumber h .bigInt v
  | .bigDecimal => if v.isNull then .ok .null else toNumber h .decimal v
  | .number =>
    if v.isNull then .ok .null
    else if v.isNumber then .ok v
    else if (v.text?).any isFloatText then toNumber h .double v
    else toNumber h .long v
  | .instant => do
    match ← toInstant h v with
    | some t => pure (.instant t)
    | none => pure .null
  | t => toReference h t v

/-- The value has a counterpart in the type. -/
def fits (t : TypeRef) (v : Value) : Bool := (toType h t v).toBool

end Coercion

end ExprLang
