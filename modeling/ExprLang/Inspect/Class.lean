import ExprLang.BeanProperty
import ExprLang.Inspect.Value

/-! Classes, their methods and their properties as JSON. -/

namespace ExprLang

/-- What holds of a method beyond its signature. -/
def Method.flags (m : Method) : List String :=
  [(m.isStatic, "static"), (!m.isPublic, "private"), (m.gathers.isSome, "varargs"),
    (m.isAbstract, "abstract"), (m.isConstructor, "constructor")].filterMap fun (holds, flag) =>
      if holds then some flag else none

def Method.toJson (l : Lineage) (m : Method) : Json :=
  .object [("sig", .string (m.signature l)), ("class", .string (m.owner l)),
    ("returns", .string (l.typeName m.returns)), ("flags", .strings m.flags)]

def ClassKind.label : ClassKind → String
  | plain => "Class"
  | interface => "Interface"
  | record => "Record"

namespace ClassTable

def methodsToJson (t : ClassTable) (ms : List Method) : Json := .array (ms.map (·.toJson t.lineage))

/-- The names, the kind and the ancestors of a class, and what it declares. -/
def shapeMembers (t : ClassTable) (h : Heap) (c : ClassId) : List (String × Json) :=
  let l := t.lineage
  let s := l.shape c
  let m := t.members c
  let name (d : ClassId) : Json := .string (l.name d)
  let type (u : TypeRef) : Json := .string (l.typeName u)
  [("name", .string s.name), ("simple", .string s.simpleName), ("kind", .string s.kind.label),
    ("interface", .bool (s.kind = .interface)), ("record", .bool (s.kind = .record)),
    ("type", type (l.asType c)), ("builtin", .orNull (s.stands.map type)),
    ("super", .orNull ((l.superclass? c).map name)), ("chain", .array ((l.ancestors c).map name)),
    ("direct", .array (s.interfaces.map name)),
    ("interfaces", .array ((l.allInterfaces c).map name)),
    ("constructors", t.methodsToJson m.constructors),
    ("fields", .array (m.fields.map fun f => .array [.string f.name, type f.type, h.toJson f.value])),
    ("components", .array (m.components.map fun f => .array [.string f.name, type f.type])),
    ("is_object", .bool (c == .builtin .object))]

/-- The methods of a class: its own, and those it inherits. -/
def methodMembers (t : ClassTable) (c : ClassId) : List (String × Json) :=
  [("declared", t.methodsToJson (t.members c).methods),
    ("class_methods", t.methodsToJson (t.classMethods c)),
    ("defaults", t.methodsToJson (t.defaultMethods c)), ("all", t.methodsToJson (t.allMethods c))]

end ClassTable

def BeanProperty.toJson (l : Lineage) (p : BeanProperty) (name : String) : Json :=
  .object [("name", .string name), ("type", .string (l.typeName p.type)),
    ("read", .orNull (p.reader.map (·.toJson l))), ("write", .orNull (p.writer.map (·.toJson l))),
    ("read_only", .bool p.isReadOnly)]

def BeanProperties.toJson (l : Lineage) (p : BeanProperties) : Json :=
  .object [("class", .string (l.name p.owner)),
    ("properties", .array (p.properties.map fun (name, q) => q.toJson l name))]

end ExprLang
