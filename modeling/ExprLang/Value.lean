import ExprLang.Bindings
import ExprLang.Instant
import ExprLang.Node
import ExprLang.Number.Decimal
import ExprLang.TypeRef

/-! The values of the language. Collections, arrays and host objects are addresses of cells that
values share. -/

namespace ExprLang

abbrev Address := Nat

/-- A method or a constructor of a class, by its place in the class. -/
structure MethodId where
  owner : ClassId
  isConstructor : Bool
  index : Nat
deriving DecidableEq, Inhabited, Repr

mutual

inductive Value where
  | null
  | bool (b : Bool)
  | char (c : Char)
  | byte (n : Int8)
  | short (n : Int16)
  | int (n : Int32)
  | long (n : Int64)
  | bigInt (n : Int)
  | float (x : Single)
  | double (x : Double)
  | decimal (d : Decimal)
  | text (s : String)
  | instant (t : Instant)
  | list (a : Address)
  | set (a : Address)
  | map (a : Address)
  | array (a : Address)
  /-- A host object. -/
  | object (a : Address)
  /-- A class used as a value. -/
  | cls (c : ClassId)
  | lambda (f : Closure)
  | method (m : MethodExpr)

/-- A lambda with what was visible where it was written: functions and variables of the
expression, and the arguments of the lambdas around it. -/
inductive Closure where
  | mk (params : List String) (body : Node) (bound : Bound) (captured : List (String × Value))

/-- The functions and variables that an expression was built with. -/
inductive Bound where
  | mk (functions : List (String × MethodId)) (vars : List (String × ValueExpr))

/-- An expression that reads and writes a value: a tree with its text and bindings, or a value of
the host. -/
inductive ValueExpr where
  | parsed (text : String) (node : Node) (bound : Bound) (expected : Option TypeRef)
  | literal (value : Value) (expected : Option TypeRef)

/-- An expression that names a method to call later: a tree with its text and bindings, or plain
text. -/
inductive MethodExpr where
  | parsed (text : String) (node : Node) (bound : Bound) (returns : Option TypeRef)
      (params : Option (List TypeRef))
  | plain (text : String) (returns : Option TypeRef) (params : Option (List TypeRef))

end

instance : Inhabited Value := ⟨.null⟩

namespace Closure

def params : Closure → List String
  | mk p _ _ _ => p

def body : Closure → Node
  | mk _ b _ _ => b

def bound : Closure → Bound
  | mk _ _ b _ => b

def captured : Closure → Bindings Value
  | mk _ _ _ c => c

end Closure

namespace Bound

def functions : Bound → Bindings MethodId
  | mk f _ => f

def vars : Bound → Bindings ValueExpr
  | mk _ v => v

def empty : Bound := mk [] []

instance : Inhabited Bound := ⟨empty⟩

/-- The name of a function with its prefix, if it has one. -/
def functionKey (ns name : String) : String := if ns.isEmpty then name else ns ++ ":" ++ name

def function? (b : Bound) (ns name : String) : Option MethodId :=
  b.functions.find? (functionKey ns name)

def expression? (b : Bound) (name : String) : Option ValueExpr := b.vars.find? name

end Bound

namespace Value

def isNull : Value → Bool
  | null => true
  | _ => false

def isNumber : Value → Bool
  | byte _ => true | short _ => true | int _ => true | long _ => true | bigInt _ => true
  | float _ => true | double _ => true | decimal _ => true
  | _ => false

def text? : Value → Option String
  | text s => some s
  | _ => none

def bool? : Value → Option Bool
  | bool b => some b
  | _ => none

end Value

namespace MethodExpr

def text : MethodExpr → String
  | parsed t _ _ _ _ => t
  | plain t _ _ => t

def returns? : MethodExpr → Option TypeRef
  | parsed _ _ _ r _ => r
  | plain _ r _ => r

def params? : MethodExpr → Option (List TypeRef)
  | parsed _ _ _ _ p => p
  | plain _ _ p => p

def node? : MethodExpr → Option Node
  | parsed _ n _ _ _ => some n
  | plain _ _ _ => none

def bound? : MethodExpr → Option Bound
  | parsed _ _ b _ _ => some b
  | plain _ _ _ => none

def isPlain : MethodExpr → Bool
  | parsed _ _ _ _ _ => false
  | plain _ _ _ => true

/-- The expression carries its own argument list. -/
def providesArguments (m : MethodExpr) : Bool := m.node?.any Node.endsInCall

/-- Parsed expressions are equal by tree and parameter types, plain ones by text and result. -/
def same : MethodExpr → MethodExpr → Bool
  | parsed _ a _ _ p, parsed _ b _ _ q => a == b && p == q
  | plain a r _, plain b s _ => a == b && r == s
  | _, _ => false

end MethodExpr

/-- Lambdas are equal by parameters and body. -/
def Closure.same (f g : Closure) : Bool := f.params == g.params && f.body == g.body

namespace ValueExpr

def expected? : ValueExpr → Option TypeRef
  | parsed _ _ _ e => e
  | literal _ e => e

def node? : ValueExpr → Option Node
  | parsed _ n _ _ => some n
  | literal _ _ => none

def bound? : ValueExpr → Option Bound
  | parsed _ _ b _ => some b
  | literal _ _ => none

def literal? : ValueExpr → Option Value
  | parsed _ _ _ _ => none
  | literal v _ => some v

/-- Evaluation cannot depend on the context. -/
def isLiteral : ValueExpr → Bool
  | parsed _ (.plain _) _ _ => true
  | parsed _ _ _ _ => false
  | literal _ _ => true

end ValueExpr

end ExprLang
