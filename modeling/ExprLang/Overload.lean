import ExprLang.Method
import ExprLang.Value.Coercion

/-! Which of several methods of one name a call means. Methods are ranked by how well the arguments
fit; those that gather arguments come last. -/

namespace ExprLang

/-- How an argument fits a parameter, from the best to the worst. -/
inductive Fit where
  | exact
  /-- The parameter takes the value as it is. -/
  | assignable
  | coercible
  /-- Only the text of the value fits. -/
  | asText
deriving DecidableEq, Repr

/-- How many arguments fit in each way. -/
structure Score where
  exact : Nat := 0
  assignable : Nat := 0
  coercible : Nat := 0
  asText : Nat := 0
deriving DecidableEq, Repr

namespace Score

def add (s : Score) : Fit → Score
  | .exact => { s with exact := s.exact + 1 }
  | .assignable => { s with assignable := s.assignable + 1 }
  | .coercible => { s with coercible := s.coercible + 1 }
  | .asText => { s with asText := s.asText + 1 }

/-- The better score has more exact fits, then more assignable ones, and so on. -/
def compare (s t : Score) : Ordering :=
  (Ord.compare s.exact t.exact).then <|
    (Ord.compare s.assignable t.assignable).then <|
      (Ord.compare s.coercible t.coercible).then (Ord.compare s.asText t.asText)

end Score

namespace Overload

/-- How a value fits a parameter, if it does. -/
def fit? (h : Heap) (param : TypeRef) (v : Value) : Option Fit :=
  match h.typeOf? v with
  | none => some (if param.isPrimitive then .coercible else .assignable)
  | some t =>
    if param == t then some .exact
    else if h.lineage.assignable param t then some .assignable
    else if param == .string then some .asText
    else if Coercion.fits h param v then some .coercible
    else none

/-- The score of as many arguments as parameters, on top of another one. -/
def scoreAll (h : Heap) (s : Score) : List TypeRef → List Value → Option Score
  | [], [] => some s
  | p :: ps, v :: vs => (fit? h p v).bind fun f => scoreAll h (s.add f) ps vs
  | _, _ => none

/-- The score of a call with one argument for each parameter. -/
def scoreFixed (h : Heap) (m : Method) (args : List Value) : Option Score :=
  scoreAll h {} m.params args

/-- The score of a call that leaves its last arguments to be gathered. -/
def scoreGathering (h : Heap) (m : Method) (args : List Value) : Option Score :=
  match m.gathers with
  | none => none
  | some component =>
    if args.length < m.fixed.length then none
    else
      let spare := args.length - m.fixed.length
      scoreAll h {} (m.fixed ++ List.replicate spare component) args

/-- Every parameter of the first list fits where the second one has its own. -/
def moreSpecific (l : Lineage) : List TypeRef → List TypeRef → Bool
  | [], [] => true
  | p :: ps, q :: qs => (p == q || l.assignable q p || p.widensTo q) && moreSpecific l ps qs
  | _, _ => false

/-- No other method has a better score. -/
def isBest (scored : List (Score × Method)) (s : Score) : Bool :=
  scored.all fun e => e.1.compare s != .gt

/-- The first method that is more specific than all the others. -/
def mostSpecific? (l : Lineage) (tied : List Method) : Option Method :=
  tied.find? fun m => tied.all fun n => m.id == n.id || moreSpecific l m.params n.params

/-- The best of these methods, none if there are none. Two that are as good are a fault. -/
def best (l : Lineage) (scored : List (Score × Method)) (call : String) :
    Except Fault (Option Method) :=
  match (scored.filter fun e => isBest scored e.1).map (·.2) with
  | [] => .ok none
  | [m] => .ok (some m)
  | tied =>
    match mostSpecific? l tied with
    | some m => .ok (some m)
    | none => .error (.ambiguousCall call)

/-- The text of a call by the types of its arguments. -/
def callText (h : Heap) (owner name : String) (args : List Value) : String :=
  owner ++ "." ++ name ++ "(" ++ String.intercalate ", " (args.map h.typeName) ++ ")"

/-- The method of a name that a call means. Parameter types, where given, have to be those of the
method. -/
def find (h : Heap) (owner : String) (methods : List Method) (name : String)
    (types : Option (List TypeRef)) (args : List Value) : Except Fault Method := do
  let call := callText h owner name args
  let named := methods.filter (·.name == name)
  if named.isEmpty then throw (.noMember owner name)
  match types with
  | some ts =>
    match named.find? (·.params == ts) with
    | some m => pure m
    | none => throw (.noOverload call)
  | none =>
    let fixed := named.filterMap fun m => (scoreFixed h m args).map (·, m)
    if let some m ← best h.lineage fixed call then return m
    let gathering := named.filterMap fun m => (scoreGathering h m args).map (·, m)
    match ← best h.lineage gathering call with
    | some m => pure m
    | none => throw (.noOverload call)

end Overload

end ExprLang
