import ExprLang.Builtin.Table
import ExprLang.Evaluation.Step
import ExprLang.Factory
import ExprLang.Settings

/-! Sessions evaluate lines one after the other. Names that a line assigns are there for later
lines. -/

namespace ExprLang

structure Session where
  factory : Factory
  world : World

namespace Session

/-- The builtin classes alone. -/
def host : Host := ⟨.ofHost #[], fun _ {_} q => pure q.neutral⟩

def ofSettings (s : Settings) : Session where
  factory := .ofCapacity s.expressionCapacity
  world := ⟨⟨host.classes.lineage, #[]⟩, .standard s.readOnlyBeans s.importBuiltins, []⟩

/-- A line with marks is a template as it stands; any other is one expression. -/
def template (line : String) : String :=
  let cs := line.toList
  if (Search.indexOf? ['$', '\x7b'] cs).isSome || (Search.indexOf? ['#', '\x7b'] cs).isSome then line
  else "$\x7b" ++ line ++ "\x7d"

/-- Evaluates a template, whose text has to be read first. -/
def evalTemplate (s : Session) (text : String) : Outcome Value × Session :=
  let (built, factory) := (Factory.valueExpression host.classes s.world.context text none).run s.factory
  match built with
  | .error f => (.fault f s.world, ⟨factory, s.world⟩)
  | .ok e =>
    let r := e.read host (Evaluation.evaluator host) s.world
    match r with
    | .value _ w => (r, ⟨factory, w⟩)
    | .fault _ w => (r, ⟨factory, w⟩)
    | .exhausted => (r, ⟨factory, s.world⟩)

/-- Evaluates a line. -/
def evalLine (s : Session) (line : String) : Outcome Value × Session := s.evalTemplate (template line)

/-- The names that are defined, in order, with the texts of their values. -/
def beans (s : Session) : List (String × String) :=
  (s.world.context.beans?.getD []).map fun (name, v) => (name, s.world.heap.display v)

/-- Drops the trees that are kept. -/
def reclaim (s : Session) : Session := { s with factory := s.factory.reclaimAll }

end Session

end ExprLang
