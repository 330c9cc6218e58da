import ExprLang.Text.CharClass
import ExprLang.TypeRef

/-! Who descends from whom: names, superclasses and interfaces of all classes. -/

namespace ExprLang

inductive ClassKind where
  | plain | interface | record
deriving DecidableEq, Inhabited, Repr

/-- What a class is called and what it descends from. -/
structure ClassShape where
  name : String
  kind : ClassKind
  superclass : Option ClassId
  interfaces : List ClassId
  /-- The type that the class describes, where that is not the class itself. -/
  stands : Option TypeRef
deriving Inhabited, Repr

/-- The part of a name after its last separator. -/
def simpleName (name : String) : String :=
  String.ofList ((name.toList.reverse.takeWhile fun c => c != '.' && c != '$').reverse)

def ClassShape.simpleName (s : ClassShape) : String := ExprLang.simpleName s.name

namespace Builtin

def all : List Builtin :=
  [.object, .string, .boolean, .character, .number, .byte, .short, .integer, .long, .float,
    .double, .bigInteger, .bigDecimal, .math, .list, .set, .map, .instant, .cls, .lambda]

def name : Builtin → String
  | object => "java.lang.Object" | string => "java.lang.String" | boolean => "java.lang.Boolean"
  | character => "java.lang.Character" | number => "java.lang.Number" | byte => "java.lang.Byte"
  | short => "java.lang.Short" | integer => "java.lang.Integer" | long => "java.lang.Long"
  | float => "java.lang.Float" | double => "java.lang.Double"
  | bigInteger => "java.math.BigInteger" | bigDecimal => "java.math.BigDecimal"
  | math => "java.lang.Math" | list => "java.util.List" | set => "java.util.Set"
  | map => "java.util.Map" | instant => "java.time.Instant" | cls => "java.lang.Class"
  | lambda => "jakarta.el.LambdaExpression"

def stands : Builtin → Option TypeRef
  | object => some .object | string => some .string | boolean => some (.boxed .boolean)
  | character => some (.boxed .char) | number => some .number | byte => some (.boxed .byte)
  | short => some (.boxed .short) | integer => some (.boxed .int) | long => some (.boxed .long)
  | float => some (.boxed .float) | double => some (.boxed .double)
  | bigInteger => some .bigInteger | bigDecimal => some .bigDecimal | math => none
  | list => some .list | set => some .set | map => some .map | instant => some .instant
  | cls => some .cls | lambda => some .lambda

def isInterface : Builtin → Bool
  | list => true | set => true | map => true
  | _ => false

/-- Numbers extend `number`, all other classes `object`; interfaces extend nothing. -/
def superclass : Builtin → Option ClassId
  | object => none | list => none | set => none | map => none
  | byte => some (.builtin .number) | short => some (.builtin .number)
  | integer => some (.builtin .number) | long => some (.builtin .number)
  | float => some (.builtin .number) | double => some (.builtin .number)
  | bigInteger => some (.builtin .number) | bigDecimal => some (.builtin .number)
  | _ => some (.builtin .object)

def shape (b : Builtin) : ClassShape :=
  { name := b.name, kind := if b.isInterface then .interface else .plain
    superclass := b.superclass, interfaces := [], stands := b.stands }

end Builtin

/-- The rank of a class. A class descends only from classes of a lower rank. -/
def ClassId.rank : ClassId → Nat
  | .builtin .object => 0
  | .builtin .number => 1
  | .builtin _ => 2
  | .host n => 3 + n

/-- The shapes of the host's classes, in the order of their definition. -/
structure Lineage where
  hosts : Array ClassShape
deriving Inhabited

namespace Lineage

def shape (l : Lineage) : ClassId → ClassShape
  | .builtin b => b.shape
  | .host n => l.hosts.getD n default

def name (l : Lineage) (c : ClassId) : String := (l.shape c).name

def simpleName (l : Lineage) (c : ClassId) : String := (l.shape c).simpleName

/-- The class that `c` extends. -/
def superclass? (l : Lineage) (c : ClassId) : Option ClassId :=
  (l.shape c).superclass.filter fun p => p.rank < c.rank

theorem superclass?_rank {l : Lineage} {c p : ClassId} (h : l.superclass? c = some p) :
    p.rank < c.rank := by
  simp [superclass?, Option.filter_eq_some_iff] at h
  exact h.2

/-- A class followed by its ancestors. -/
def ancestors (l : Lineage) (c : ClassId) : List ClassId :=
  match _h : l.superclass? c with
  | none => [c]
  | some p => c :: l.ancestors p
termination_by c.rank
decreasing_by exact superclass?_rank _h

/-- The classes `seen` and after them those of the list that rank below `bound` and were not
seen, each followed by the interfaces it names, depth first. -/
def visit (l : Lineage) (bound : Nat) (seen : List ClassId) : List ClassId → List ClassId
  | [] => seen
  | c :: cs =>
    if _h : c.rank < bound ∧ c ∉ seen then
      l.visit bound (l.visit c.rank (seen ++ [c]) (l.shape c).interfaces) cs
    else l.visit bound seen cs
termination_by cs => (bound, cs.length)
decreasing_by
  · exact Prod.Lex.left _ _ _h.1
  · exact Prod.Lex.right _ (by simp)
  · exact Prod.Lex.right _ (by simp)

/-- Every interface of a class and of its ancestors, depth first. -/
def allInterfaces (l : Lineage) (c : ClassId) : List ClassId :=
  (l.ancestors c).foldl (fun seen k => l.visit k.rank seen (l.shape k).interfaces) []

def isSubclass (l : Lineage) (c d : ClassId) : Bool :=
  (l.ancestors c).contains d || (l.allInterfaces c).contains d

/-- The type of the values that a class describes. -/
def asType (l : Lineage) (c : ClassId) : TypeRef := (l.shape c).stands.getD (.named c)

def typeName (l : Lineage) : TypeRef → String
  | .array component => l.typeName component ++ "[]"
  | .named c => l.name c
  | t => t.plainName

/-- A value of the type `source` can be stored where `target` is declared; arrays are compared
as wholes. -/
def accepts (l : Lineage) (target source : TypeRef) : Bool :=
  target == source ||
  (target != .void && source != .void &&
    match source with
    | .primitive p => target == .boxed p
    | .boxed p => target == .object || target == .primitive p || (target == .number && p.isNumeric)
    | .named s =>
      match target with
      | .object => true
      | .named t => l.isSubclass s t
      | t =>
        (l.ancestors s).any (fun c => l.asType c == t) ||
          (l.allInterfaces s).any (fun c => l.asType c == t)
    | s => target == .object || (target == .number && s.isNumeric))

/-- A value of the second type can be stored where the first one is declared. Arrays of values
that are no primitives follow their components. -/
def assignable (l : Lineage) : TypeRef → TypeRef → Bool
  | .array a, .array b => a == b || (!b.isPrimitive && l.assignable a b)
  | target, source => l.accepts target source

end Lineage

/-! ## Names of classes -/

/-- Classes by their full names. -/
structure Registry where
  entries : List (String × ClassId)

namespace Registry

def register (r : Registry) (name : String) (c : ClassId) : Registry :=
  if r.entries.any (·.1 == name) then
    ⟨r.entries.map fun e => if e.1 == name then (name, c) else e⟩
  else ⟨r.entries ++ [(name, c)]⟩

/-- The builtin classes. -/
def builtins : Registry := ⟨Builtin.all.map fun b => (b.name, .builtin b)⟩

/-- The class of a full name, else one of this simple name. -/
def resolve (r : Registry) (name : String) : Option ClassId :=
  match r.entries.find? (·.1 == name) with
  | some (_, c) => some c
  | none => (r.entries.find? fun e => simpleName e.1 == name).map (·.2)

/-- The type of this name, which is no array type. -/
def resolveSimpleType (r : Registry) (l : Lineage) (name : String) : Option TypeRef :=
  (TypeRef.plain.find? (·.plainName == name)).or ((r.resolve name).map l.asType)

/-- The number of bracket pairs at the end of a name, and the name before them, which is given in
reverse. Blanks may stand around the brackets. -/
def splitBrackets : List Char → Nat × List Char
  | ']' :: '[' :: rest =>
    let (n, base) := splitBrackets rest
    (n + 1, base)
  | c :: rest => if isBlank c then splitBrackets rest else (0, c :: rest)
  | [] => (0, [])

/-- The type of arrays of arrays of a type, so many times over. -/
def arrayOf (t : TypeRef) : Nat → TypeRef
  | 0 => t
  | n + 1 => .array (arrayOf t n)

/-- The type with this name, as `typeName` writes it; blanks around it are dropped. -/
def resolveType (r : Registry) (l : Lineage) (name : String) : Option TypeRef :=
  let (depth, reversed) := splitBrackets name.toList.reverse
  (r.resolveSimpleType l (trimBlanks (String.ofList reversed.reverse))).map (arrayOf · depth)

end Registry

end ExprLang
