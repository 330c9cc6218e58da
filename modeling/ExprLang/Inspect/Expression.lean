import ExprLang.Evaluation.Task
import ExprLang.Factory
import ExprLang.Inspect.Value

/-! Expressions as JSON: their texts and types, and what they were built with. -/

namespace ExprLang

def Lineage.typeToJson (l : Lineage) (t : TypeRef) : Json := .string (l.typeName t)

def Lineage.typesToJson (l : Lineage) (ts : List TypeRef) : Json := .array (ts.map l.typeToJson)

namespace Bound

/-- The functions of an expression, each with its method. -/
def functionTexts (t : ClassTable) (b : Bound) : List String :=
  b.functions.filterMap fun (key, id) =>
    (t.method? id).map fun m => key ++ "=" ++ m.owner t.lineage ++ "." ++ m.signature t.lineage

/-- The variables of an expression, each with its text. -/
def variableTexts (h : Heap) (b : Bound) : List String :=
  b.vars.map fun (name, e) => name ++ "=" ++ e.text h

end Bound

def ValueExpr.toJson (t : ClassTable) (h : Heap) (e : ValueExpr) : Json :=
  let functions := e.bound?.map (·.functionTexts t)
  let vars := e.bound?.map (·.variableTexts h)
  let both (f : List String → Json) : Json := .array [.orNull (functions.map f), .orNull (vars.map f)]
  .object [("text", .string (e.text h)), ("expected", .orNull (e.expected?.map h.lineage.typeToJson)),
    ("literal", .bool e.isLiteral), ("host", .orNull (e.literal?.map h.toJson)),
    ("node", .orNull (e.node?.map fun n => .string n.kind)),
    ("functions", .orNull (functions.map .strings)), ("variables", .orNull (vars.map .strings)),
    ("counts", both fun xs => .ofInt xs.length), ("none", both fun xs => .bool xs.isEmpty)]

def MethodExpr.toJson (l : Lineage) (m : MethodExpr) : Json :=
  .object [("text", .string m.text), ("returns", .orNull (m.returns?.map l.typeToJson)),
    ("params", .orNull (m.params?.map l.typesToJson)), ("literal", .bool m.isPlain),
    ("provided", .bool m.providesArguments), ("node", .orNull (m.node?.map fun n => .string n.kind)),
    ("functions", .orNull (m.bound?.map fun b => .ofInt b.functions.length)),
    ("variables", .orNull (m.bound?.map fun b => .strings b.vars.names))]

def MethodInfo.toJson (l : Lineage) (i : MethodInfo) : Json :=
  .object [("name", .string i.name), ("returns", l.typeToJson i.returns),
    ("params", l.typesToJson i.params)]

end ExprLang
