import ExprLang.Context
import ExprLang.Method

/-! Computations that read and change a world. -/

namespace ExprLang

/-- How a computation ends; it is exhausted where it nests deeper than allowed. -/
inductive Outcome (α : Type) where
  | value (a : α) (w : World)
  | fault (f : Fault) (w : World)
  | exhausted

def Action (α : Type) : Type := World → Outcome α

namespace Action
variable {α β : Type}

protected def pure (a : α) : Action α := fun w => .value a w

protected def bind (x : Action α) (f : α → Action β) : Action β := fun w =>
  match x w with
  | .value a w => f a w
  | .fault e w => .fault e w
  | .exhausted => .exhausted

instance : Monad Action where
  pure := Action.pure
  bind := Action.bind

def fail (f : Fault) : Action α := fun w => .fault f w

def ofExcept (r : Except Fault α) : Action α :=
  match r with
  | .ok a => Action.pure a
  | .error f => fail f

def exhausted : Action α := fun _ => .exhausted

/-- Runs a computation and gives its result, be it a value or a fault. -/
def attempt (x : Action α) : Action (Except Fault α) := fun w =>
  match x w with
  | .value a w => .value (.ok a) w
  | .fault e w => .value (.error e) w
  | .exhausted => .exhausted

def world : Action World := fun w => .value w w

def heap : Action Heap := fun w => .value w.heap w

def context : Action Context := fun w => .value w.context w

def modifyContext (f : Context → Context) : Action Unit := fun w =>
  .value () { w with context := f w.context }

/-- Puts other cells in place; the classes stay. -/
def setCells (h : Heap) : Action Unit := fun w =>
  .value () { w with heap := { w.heap with cells := h.cells } }

/-- Makes a value that takes cells. -/
def build (f : Heap → Value × Heap) : Action Value := do
  let (v, h) := f (← heap)
  setCells h
  pure v

/-! ## Claims and events -/

def isResolved : Action Bool := fun w => .value w.context.resolved w

def setResolved (b : Bool) : Action Unit := modifyContext fun c => { c with resolved := b }

/-- The first objection to an event. -/
def objection? (ls : List Listener) (e : Event) : Option Fault := ls.findSome? (·.objection e)

/-- Records an event and tells it to the listeners, until one objects. -/
def notify (e : Event) : Action Unit := fun w =>
  let w := { w with log := e :: w.log }
  match objection? w.context.listeners e with
  | some f => .fault f w
  | none => .value () w

/-- Claims the request for a property. -/
def claim (base property : Value) : Action Unit := do
  setResolved true
  let h ← heap
  notify (.resolved (h.typeName base) (h.display property))

end Action

/-! ## Requests -/

/-- What a chain of resolvers is asked. -/
inductive Request : Type → Type where
  | get (base property : Value) : Request Value
  /-- The declared type of a property; none if it is unknown. -/
  | type (base property : Value) : Request (Option TypeRef)
  | set (base property value : Value) : Request Unit
  | readOnly (base property : Value) : Request Bool
  | invoke (base method : Value) (types : Option (List TypeRef)) (args : List Value) : Request Value
  | convert (v : Value) (t : TypeRef) : Request Value

namespace Request

/-- The answer of a resolver that does not claim the request. -/
def neutral : {α : Type} → Request α → α
  | _, get _ _ => .null
  | _, type _ _ => none
  | _, set _ _ _ => ()
  | _, readOnly _ _ => false
  | _, invoke _ _ _ _ => .null
  | _, convert _ _ => .null

end Request

/-- How resolvers that are no groups answer. -/
abbrev Answerer := ∀ {α : Type}, Resolver → Request α → Action α

/-- The classes and the resolvers that the host provides. -/
structure Host where
  classes : ClassTable
  custom : Nat → {α : Type} → Request α → Action α

mutual

/-- The answer of a resolver. Groups start afresh. -/
def Resolver.ask (answer : Answerer) {α : Type} : Resolver → Request α → Action α
  | .group members, q => do
    Action.setResolved false
    askAll answer members q
  | r, q => answer r q

/-- The answer of the first resolver that claims the request. -/
def askAll (answer : Answerer) {α : Type} : List Resolver → Request α → Action α
  | [], q => pure q.neutral
  | r :: rs, q => do
    let a ← r.ask answer q
    if ← Action.isResolved then pure a else askAll answer rs q

end

/-- The answer of the chain of the context. -/
def askChain (answer : Answerer) {α : Type} (q : Request α) : Action α := do
  let c ← Action.context
  (Resolver.group c.layout.resolvers).ask answer q

end ExprLang
