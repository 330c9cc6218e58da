import ExprLang.Value.Coercion

/-! Equality, order and emptiness of values as the operators see them. -/

namespace ExprLang

namespace HostObject

/-- Its place against another value: objects by their places, integers, truth values as 0 and
1. -/
def compare? (h : Heap) (o : HostObject) (v : Value) : Option Ordering := do
  let place ← o.order
  match v with
  | .object a =>
    let p ← h.object? a
    let other ← p.order
    some (compare place other)
  | .long n => some (compare place n.toInt)
  | .bool b => some (compare place (if b then 1 else 0))
  | _ => none

/-- An object with a place equals one with the same place, and a list of that length. An object
without one equals itself only. -/
def equals (h : Heap) (o : HostObject) (self : Address) (v : Value) : Bool :=
  match o.order with
  | none =>
    match v with
    | .object a => a == self
    | _ => false
  | some place =>
    match v with
    | .object a =>
      match (h.object? a).bind (·.order) with
      | some other => other == place
      | none => false
    | .list a => ((h.items a).length : Int) == place
    | _ => false

end HostObject

namespace Comparison

/-- The kinds of numbers in which values are compared. -/
inductive Scale where
  | decimal | floating | big | word
deriving DecidableEq, Repr

def isDecimal : Value → Bool
  | .decimal _ => true
  | _ => false

def isFloating : Value → Bool
  | .double _ => true
  | .float _ => true
  | _ => false

def isBig : Value → Bool
  | .bigInt _ => true
  | _ => false

def isWord : Value → Bool
  | .long _ => true
  | .int _ => true
  | .short _ => true
  | .byte _ => true
  | .char _ => true
  | _ => false

def isBool : Value → Bool
  | .bool _ => true
  | _ => false

def isInstant : Value → Bool
  | .instant _ => true
  | _ => false

def isText : Value → Bool
  | .text _ => true
  | _ => false

def either (p : Value → Bool) (a b : Value) : Bool := p a || p b

/-- The scale on which two values compare as numbers, where one of them is a number. -/
def scale? (a b : Value) : Option Scale :=
  if either isDecimal a b then some .decimal
  else if either isFloating a b then some .floating
  else if either isBig a b then some .big
  else if either isWord a b then some .word
  else none

variable (h : Heap)

/-- How two values compare on a scale; a NaN compares with nothing. -/
def onScale (s : Scale) (a b : Value) : Except Fault (Option Ordering) :=
  match s with
  | .decimal => do
    let x ← Coercion.toTarget h Coercion.decimal a
    let y ← Coercion.toTarget h Coercion.decimal b
    pure (some (x.compare y))
  | .floating => do
    let x ← Coercion.toTarget h Coercion.double a
    let y ← Coercion.toTarget h Coercion.double b
    pure (x.compare? y)
  | .big => do
    let x ← Coercion.toTarget h Coercion.big a
    let y ← Coercion.toTarget h Coercion.big b
    pure (some (compare x y))
  | .word => do
    let x ← Coercion.toTarget h Coercion.long a
    let y ← Coercion.toTarget h Coercion.long b
    pure (some (compare x y))

/-- Whether one value, taken as an object of the host, equals the other. -/
def objectEquals (a b : Value) : Bool :=
  let asObject (v w : Value) : Option Bool :=
    match v with
    | .object x => (h.object? x).map fun o => o.equals h x w
    | _ => none
  ((asObject a b).or (asObject b a)).getD false

/-- The operator `==`. -/
def equals (a b : Value) : Except Fault Bool :=
  if a.isNull || b.isNull then .ok (a.isNull && b.isNull)
  else if h.equal a b then .ok true
  else
    match scale? a b with
    | some s => (· == some .eq) <$> onScale h s a b
    | none =>
      if either isBool a b then do
        let x ← Coercion.toBool h a
        let y ← Coercion.toBool h b
        pure (x == y)
      else if either isInstant a b then do
        let x ← Coercion.toInstant h a
        let y ← Coercion.toInstant h b
        pure (x == y)
      else if either isText a b then .ok (Coercion.toText h a == Coercion.toText h b)
      else .ok (objectEquals h a b)

def isNaN : Value → Bool
  | .double x => x.isNaN
  | .float x => x.isNaN
  | _ => false

/-- A NaN is greater than every number and equal to another one. -/
def orderNaN (a b : Value) : Ordering :=
  match isNaN a, isNaN b with
  | true, true => .eq
  | true, false => .gt
  | _, _ => .lt

/-- The order that objects of the host give to two values, the first one asked first. -/
def objectOrder? (a b : Value) : Option Ordering :=
  let asked (v w : Value) : Option Ordering :=
    match v with
    | .object x => (h.object? x).bind fun o => o.compare? h w
    | _ => none
  (asked a b).or ((asked b a).map Ordering.swap)

/-- Texts by their characters' codes. -/
def orderTexts (s t : String) : Ordering := compare s t

/-- How two values compare. -/
def order (a b : Value) : Except Fault Ordering :=
  let incomparable : Fault := .coercion (h.display b) (h.typeName b) (h.typeName a)
  match scale? a b with
  | some s => (·.getD (orderNaN a b)) <$> onScale h s a b
  | none =>
    if either isInstant a b then do
      let x ← Coercion.toInstant h a
      let y ← Coercion.toInstant h b
      match x, y with
      | some x, some y => pure (x.compare y)
      | _, _ => throw incomparable
    else if either isText a b then .ok (orderTexts (Coercion.toText h a) (Coercion.toText h b))
    else
      match a, b with
      | .bool x, .bool y => .ok (compare x.toNat y.toNat)
      | a, b =>
        match objectOrder? h a b with
        | some o => .ok o
        | none => .error incomparable

/-- The order of two values satisfies `p`; a null satisfies nothing. -/
def strictly (p : Ordering → Bool) (a b : Value) : Except Fault Bool :=
  if a.isNull || b.isNull then .ok false else p <$> order h a b

/-- The order of two values satisfies `p`; two nulls satisfy anything, one null nothing. -/
def weakly (p : Ordering → Bool) (a b : Value) : Except Fault Bool :=
  if a.isNull || b.isNull then .ok (a.isNull && b.isNull) else p <$> order h a b

def less (a b : Value) : Except Fault Bool := strictly h (· == .lt) a b

def greater (a b : Value) : Except Fault Bool := strictly h (· == .gt) a b

def lessEqual (a b : Value) : Except Fault Bool := weakly h (· != .gt) a b

def greaterEqual (a b : Value) : Except Fault Bool := weakly h (· != .lt) a b

/-- Null, the empty text and collections without members. -/
def isEmpty (v : Value) : Bool :=
  match v with
  | .null => true
  | .text s => s.isEmpty
  | .list a => (h.items a).isEmpty
  | .set a => (h.items a).isEmpty
  | .map a => (h.entries a).isEmpty
  | .array a => (h.array a).2.isEmpty
  | _ => false

end Comparison

end ExprLang
