import ExprLang.Imports

/-! What an evaluation runs in: the values that names stand for, the resolvers that are asked for
properties, and the cells of all values. -/

namespace ExprLang

/-! ## Resolvers -/

/-- A member of the chain that answers for properties and methods. -/
inductive Resolver where
  /-- Names of one store of values. -/
  | names (store : Nat)
  /-- Static members of classes. -/
  | statics
  | maps (readOnly : Bool)
  | lists (readOnly : Bool)
  | arrays (readOnly : Bool)
  | records
  /-- Properties and methods of any object. -/
  | beans (readOnly : Bool)
  /-- Resolvers that are asked in turn. -/
  | group (members : List Resolver)
  /-- One that the host provides. -/
  | custom (index : Nat)
deriving Inhabited

/-- The chain of resolvers: the standard one, into which those of the host are put, or any other. -/
inductive Layout where
  | standard (added : List Resolver) (readOnlyBeans : Bool)
  | chain (members : List Resolver)
deriving Inhabited

namespace Layout

/-- The store of names in the standard chain. -/
def localStore : Nat := 0

def resolvers : Layout → List Resolver
  | standard added readOnlyBeans =>
    [.names localStore, .group added, .statics, .maps false, .lists false, .arrays false, .records,
      .beans readOnlyBeans]
  | chain members => members

/-- The store of the names that the host may define. -/
def localStore? : Layout → Option Nat
  | standard _ _ => some localStore
  | chain _ => none

/-- Adds a resolver: before the ones for values, or at the end of another chain. -/
def add (l : Layout) (r : Resolver) : Layout :=
  match l with
  | standard added readOnlyBeans => standard (added ++ [r]) readOnlyBeans
  | chain members => chain (members ++ [r])

end Layout

/-! ## Listeners -/

inductive Event where
  | before (text : String)
  | after (text : String)
  /-- A property was claimed, of a value of this type. -/
  | resolved (type property : String)
  /-- A remark of the host's own code. -/
  | note (text : String)
deriving DecidableEq, Repr

/-- Hears of events, under a name if it has one, and may object to them. -/
structure Listener where
  name : Option String
  objection : Event → Option Fault

/-! ## Contexts -/

structure Context where
  layout : Layout
  /-- The last request to the chain was claimed. -/
  resolved : Bool := false
  /-- The arguments of the lambdas that run, the innermost first. -/
  scopes : List (Bindings Value) := []
  /-- The values of names, store by store. -/
  stores : Array (Bindings Value) := #[[]]
  functions : Bindings MethodId := []
  vars : Bindings ValueExpr := []
  imports : Imports := .builtins
  listeners : List Listener := []

namespace Context

/-- The standard chain. -/
def standard (readOnlyBeans importBuiltins : Bool) : Context :=
  { layout := .standard [] readOnlyBeans
    imports := if importBuiltins then .builtins else .none }

def store (c : Context) (i : Nat) : Bindings Value := c.stores.getD i []

def setStore (c : Context) (i : Nat) (b : Bindings Value) : Context :=
  { c with stores := c.stores.setIfInBounds i b }

/-- The values that the host may define, where the chain has them. -/
def beans? (c : Context) : Option (Bindings Value) := c.layout.localStore?.map c.store

def bean? (c : Context) (name : String) : Option Value := c.beans?.bind (·.find? name)

def define (c : Context) (name : String) (v : Value) : Except Fault Context :=
  match c.layout.localStore? with
  | some i => .ok (c.setStore i ((c.store i).insert name v))
  | none => .error .noLocalBeans

def remove (c : Context) (name : String) : Context :=
  match c.layout.localStore? with
  | some i => c.setStore i ((c.store i).erase name)
  | none => c

/-- The innermost argument of this name. -/
def argument? (c : Context) (name : String) : Option Value :=
  c.scopes.findSome? (·.find? name)

def isArgument (c : Context) (name : String) : Bool := c.scopes.any (·.contains name)

/-- All arguments in sight; inner ones hide outer ones. -/
def arguments (c : Context) : Bindings Value :=
  c.scopes.foldr (fun scope outer => outer.override scope) []

/-- A summary of a context. -/
def describe (c : Context) : String :=
  "ElContext \x7b resolvers: " ++ toString c.layout.resolvers.length ++ ", resolved: " ++
    toString c.resolved ++ ", functions: " ++ toString c.functions.length ++ ", variables: " ++
    toString c.vars.length ++ ", lambda_depth: " ++ toString c.scopes.length ++
    ", listeners: " ++ toString c.listeners.length ++ ", .. \x7d"

end Context

/-- A context, the cells of all values, and what happened so far, the last event first. -/
structure World where
  heap : Heap
  context : Context
  log : List Event

end ExprLang
