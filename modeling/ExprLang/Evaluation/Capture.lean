import ExprLang.Context
import ExprLang.Method

/-! What an expression takes with it when it is built: the functions and variables that its tree
mentions. -/

namespace ExprLang

namespace Method

/-- A function takes as many arguments as it has parameters; those it gathers may be missing. -/
def acceptsCount (m : Method) (given : Nat) : Bool :=
  if m.gathers.isSome then decide (m.params.length ≤ given + 1) else given == m.params.length

def checkCount (m : Method) (key : String) (given : Nat) : Except Fault Unit :=
  if m.acceptsCount given then .ok () else .error (.functionCount key m.params.length given)

end Method

namespace Bound

/-- The function of a name with its prefix. -/
def method? (t : ClassTable) (b : Bound) (ns name : String) : Option Method :=
  (b.function? ns name).bind t.method?

def addVariable (source b : Bound) (name : String) : Bound :=
  match source.expression? name with
  | some e => mk b.functions (b.vars.insert name e)
  | none => b

/-- Adds what one part of a tree mentions. -/
def captureNode (t : ClassTable) (source b : Bound) (n : Node) : Except Fault Bound :=
  match n with
  | .name name => .ok (addVariable source b name)
  | .call ns name calls =>
    let key := functionKey ns name
    match source.function? ns name, source.method? t ns name with
    | some id, some m => do
      m.checkCount key (calls.headD []).length
      pure (mk (b.functions.insert key id) b.vars)
    | _, _ =>
      if ns.isEmpty then .ok (addVariable source b name) else .error (.unmappedFunction key)
  | _ => .ok b

/-- The functions and variables of `source` that a tree mentions. -/
def capture (t : ClassTable) (source : Bound) (n : Node) : Except Fault Bound :=
  n.parts.foldlM (captureNode t source) empty

end Bound

namespace Context

/-- The functions and variables in sight. -/
def bound (c : Context) : Bound := .mk c.functions c.vars

end Context

end ExprLang
