/-! Names of classes and types. -/

namespace ExprLang

/-- The classes that every program knows. -/
inductive Builtin where
  | object | string | boolean | character | number | byte | short | integer | long | float
  | double | bigInteger | bigDecimal | math | list | set | map | instant | cls | lambda
deriving DecidableEq, Inhabited, Repr

/-- A class: a builtin one, or the one that the host defined after so many others. -/
inductive ClassId where
  | builtin (b : Builtin)
  | host (index : Nat)
deriving DecidableEq, Inhabited, Repr

/-- Kinds of values that are no objects. -/
inductive Primitive where
  | boolean | char | byte | short | int | long | float | double
deriving DecidableEq, Inhabited, Repr

/-- A declared or observed type. -/
inductive TypeRef where
  /-- The type of methods without a result. -/
  | void
  | object | number | string | bigInteger | bigDecimal | instant | list | set | map
  | lambda | methodExpression | cls
  | primitive (p : Primitive)
  | boxed (p : Primitive)
  | array (component : TypeRef)
  | named (c : ClassId)
deriving DecidableEq, Inhabited, Repr

namespace Primitive

def all : List Primitive := [.boolean, .char, .byte, .short, .int, .long, .float, .double]

def name : Primitive → String
  | boolean => "boolean" | char => "char" | byte => "byte" | short => "short" | int => "int"
  | long => "long" | float => "float" | double => "double"

def boxedName : Primitive → String
  | boolean => "Boolean" | char => "Character" | byte => "Byte" | short => "Short"
  | int => "Integer" | long => "Long" | float => "Float" | double => "Double"

def isNumeric : Primitive → Bool
  | boolean => false | char => false
  | _ => true

/-- A value of the first kind fits the second one without loss of magnitude. -/
def widens : Primitive → Primitive → Bool
  | byte, short => true | byte, int => true | byte, long => true | byte, float => true
  | byte, double => true
  | short, int => true | short, long => true | short, float => true | short, double => true
  | char, int => true | char, long => true | char, float => true | char, double => true
  | int, long => true | int, float => true | int, double => true
  | long, float => true | long, double => true
  | float, double => true
  | _, _ => false

end Primitive

namespace TypeRef

def isPrimitive : TypeRef → Bool
  | primitive _ => true
  | _ => false

/-- The kind of a primitive or boxed type. -/
def kind? : TypeRef → Option Primitive
  | primitive p => some p
  | boxed p => some p
  | _ => none

def isNumeric : TypeRef → Bool
  | primitive p => p.isNumeric
  | boxed p => p.isNumeric
  | number => true | bigInteger => true | bigDecimal => true
  | _ => false

/-- The kind of the first type widens to the kind of the second. -/
def widensTo (a b : TypeRef) : Bool :=
  match a.kind?, b.kind? with
  | some p, some q => p.widens q
  | _, _ => false

/-- The name of a type that is none of the host's classes, and no array. -/
def plainName : TypeRef → String
  | void => "void" | object => "Object" | number => "Number" | string => "String"
  | bigInteger => "BigInteger" | bigDecimal => "BigDecimal" | instant => "Instant"
  | list => "List" | set => "Set" | map => "Map" | lambda => "LambdaExpression"
  | methodExpression => "MethodExpression" | cls => "Class"
  | primitive p => p.name
  | boxed p => p.boxedName
  | array _ => ""
  | named _ => ""

/-- The types with a name of their own. -/
def plain : List TypeRef :=
  Primitive.all.map primitive ++
    [void, object, number, string, bigInteger, bigDecimal, instant, list, set, map, lambda,
      methodExpression, cls] ++
    Primitive.all.map boxed

end TypeRef

end ExprLang
