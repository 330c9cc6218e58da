import ExprLang.Action
import ExprLang.Value.Coercion

/-! What can be asked of a tree, and the answers that only need the chain of resolvers. -/

namespace ExprLang

/-- The name, the result and the parameters of a method. -/
structure MethodInfo where
  name : String
  returns : TypeRef
  params : List TypeRef

/-- A task on a tree, with the functions and variables that the tree was built with. -/
inductive Task : Type → Type where
  | eval (b : Bound) (n : Node) : Task Value
  | assign (b : Bound) (n : Node) (v : Value) : Task Unit
  /-- The declared type of what the tree denotes; none if it is unknown. -/
  | typeOf (b : Bound) (n : Node) : Task (Option TypeRef)
  | readOnly (b : Bound) (n : Node) : Task Bool
  /-- Calls the method that the tree names. -/
  | invoke (b : Bound) (n : Node) (types : Option (List TypeRef)) (args : List Value) : Task Value
  /-- Describes the method that the tree names. -/
  | info (b : Bound) (n : Node) (types : Option (List TypeRef)) : Task (Option MethodInfo)

/-- Carries out tasks. -/
abbrev Handler := ∀ {α : Type}, Task α → Action α

namespace Conversion

/-- Conversions are left to the resolvers of the host. -/
def answer (host : Host) : Answerer := fun r q =>
  match r with
  | .custom i => host.custom i q
  | _ => pure q.neutral

/-- A value as one of a type: as a resolver converts it, else by the rules of coercion. Whether the
last request was claimed stays as it was. -/
def convert (host : Host) (v : Value) (t : TypeRef) : Action Value := do
  let before ← Action.isResolved
  Action.setResolved false
  let r ← Action.attempt (askChain (answer host) (.convert v t))
  let claimed ← Action.isResolved
  Action.setResolved before
  let converted ← Action.ofExcept r
  if claimed then pure converted
  else Action.ofExcept (Coercion.toType (← Action.heap) t v)

/-- A value as one of a type, if one is given. -/
def convertTo? (host : Host) (v : Value) (t : Option TypeRef) : Action Value :=
  match t with
  | some t => convert host v t
  | none => pure v

end Conversion

end ExprLang
