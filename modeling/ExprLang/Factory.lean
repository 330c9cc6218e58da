import ExprLang.Cache
import ExprLang.Evaluation.Expression
import ExprLang.Text.Quoted

/-! Building expressions from texts. Trees are kept by their texts and read only once. -/

namespace ExprLang

structure Factory where
  trees : Cache String Node

/-- Computations that build expressions; the trees that they read are kept also where they fail. -/
abbrev Building := ExceptT Fault (StateM Factory)

namespace Factory

/-- The number of trees that are kept where nothing else is said. -/
def defaultCapacity : Nat := 256

def ofCapacity (n : Nat) : Factory := ⟨.empty n⟩

/-- The tree of a text. -/
def parse (text : String) : Building Node := fun f =>
  let (r, trees) := f.trees.getOrCompute text fun _ => (parseTemplate text).mapError Fault.parse
  (r, ⟨trees⟩)

def ofExcept {α : Type} (r : Except Fault α) : Building α := fun f => (r, f)

variable (t : ClassTable) (c : Context)

/-- The expression of a text, with what it mentions in the context. -/
def valueExpression (text : String) (expected : Option TypeRef) : Building ValueExpr := do
  let node ← parse text
  let bound ← ofExcept (Bound.capture t c.bound node)
  pure (.parsed text node bound expected)

/-- The method expression of a text, which has to be plain or a tree that may name a method. -/
def methodExpression (text : String) (returns : Option TypeRef) (params : Option (List TypeRef)) :
    Building MethodExpr := do
  match ← parse text with
  | .plain content => pure (.plain content returns params)
  | node =>
    if node.isMethodTarget then
      let bound ← ofExcept (Bound.capture t c.bound node)
      pure (.parsed text node bound returns params)
    else throw (.notMethodText text node.kind)

def reclaim (f : Factory) (text : String) : Factory := ⟨f.trees.reclaim text⟩

def reclaimAll (f : Factory) : Factory := ⟨f.trees.reclaimAll⟩

/-- The number of trees that are kept. -/
def length (f : Factory) : Nat × Factory :=
  let (n, trees) := f.trees.length
  (n, ⟨trees⟩)

def describe (f : Factory) : String :=
  "ExpressionFactory \x7b cache: " ++ f.trees.describe "expressions" ++ " \x7d"

end Factory

/-! ## Summaries -/

/-- The text of an optional part of a summary. -/
def describeOption : Option String → String
  | none => "None"
  | some s => "Some(" ++ s ++ ")"

namespace ValueExpr

/-- The source text, or the text of the value. -/
def text (h : Heap) : ValueExpr → String
  | parsed t _ _ _ => t
  | literal v _ => h.display v

def describe (h : Heap) (e : ValueExpr) : String :=
  "ValueExpression \x7b expression: " ++ Quoted.write (e.text h) ++ ", literal: " ++
    toString e.literal?.isSome ++ ", expected: " ++
    describeOption (e.expected?.map fun t => Quoted.write (h.lineage.typeName t)) ++ " \x7d"

/-- Parsed expressions are equal by their trees, values by strict equality and expected type. -/
def same (h : Heap) : ValueExpr → ValueExpr → Bool
  | parsed _ m _ _, parsed _ n _ _ => m == n
  | literal v t, literal w u => h.equal v w && t == u
  | _, _ => false

end ValueExpr

def MethodExpr.describe (l : Lineage) (m : MethodExpr) : String :=
  let types (ts : List TypeRef) : String :=
    "[" ++ String.intercalate ", " (ts.map fun t => Quoted.write (l.typeName t)) ++ "]"
  "MethodExpression \x7b expression: " ++ Quoted.write m.text ++ ", literal: " ++
    toString m.isPlain ++ ", params: " ++ describeOption (m.params?.map types) ++ " \x7d"

end ExprLang
