/-! Syntax trees of expressions. -/

namespace ExprLang

inductive UnaryOp where
  | neg | not | empty
deriving DecidableEq, Inhabited, Repr

inductive BinaryOp where
  | add | sub | mul | div | mod
  /-- Joins the texts of its operands. -/
  | concat
  | eq | ne | lt | gt | le | ge
  | and | or
  /-- The left operand where it holds, else the right one. -/
  | elvis
  /-- The left operand where it is not null, else the right one. -/
  | coalesce
deriving DecidableEq, Inhabited, Repr

mutual

inductive Node where
  /-- Text outside all segments. -/
  | plain (text : String)
  /-- Text and segments in turn. -/
  | template (parts : List Node)
  /-- A segment that is meant to be evaluated later. -/
  | deferred (body : Node)
  /-- A segment that is meant to be evaluated at once. -/
  | dynamic (body : Node)
  | null
  | boolean (b : Bool)
  /-- An integer as written. -/
  | integer (text : String)
  /-- A floating number as written. -/
  | floating (text : String)
  /-- A string literal, by its content. -/
  | text (content : String)
  | name (text : String)
  /-- A value and the steps taken from it. -/
  | path (base : Node) (steps : List Step)
  /-- A named function with one or more argument lists. -/
  | call (ns name : String) (calls : List (List Node))
  /-- A lambda, perhaps with argument lists after it. -/
  | lambda (params : List String) (body : Node) (calls : List (List Node))
  | unary (op : UnaryOp) (operand : Node)
  | binary (op : BinaryOp) (left right : Node)
  | choice (condition yes no : Node)
  | assign (target value : Node)
  | sequence (first second : Node)
  | list (items : List Node)
  | set (items : List Node)
  | map (entries : List (Node × Node))

/-- One step of a path. With arguments it is a method call. -/
inductive Step where
  | mk (selector : Selector) (args : Option (List Node))

inductive Selector where
  | field (name : String)
  | index (node : Node)

end

instance : Inhabited Node := ⟨.null⟩

namespace UnaryOp

def sign : UnaryOp → String
  | neg => "-" | not => "!" | empty => "empty"

end UnaryOp

namespace BinaryOp

def sign : BinaryOp → String
  | add => "+" | sub => "-" | mul => "*" | div => "/" | mod => "%" | concat => "+="
  | eq => "==" | ne => "!=" | lt => "<" | gt => ">" | le => "<=" | ge => ">="
  | and => "&&" | or => "||" | elvis => "?:" | coalesce => "??"

/-- The right operand is evaluated only on demand. -/
def isLazy : BinaryOp → Bool
  | and => true | or => true | elvis => true | coalesce => true
  | _ => false

end BinaryOp

namespace Step

def selector : Step → Selector
  | mk s _ => s

def args? : Step → Option (List Node)
  | mk _ a => a

def isCall (s : Step) : Bool := s.args?.isSome

end Step

namespace Node

/-- What a tree is called in messages. -/
def kind : Node → String
  | plain _ => "literal text"
  | template _ => "composite expression"
  | deferred _ => "deferred expression"
  | dynamic _ => "dynamic expression"
  | null => "null"
  | boolean _ => "boolean literal"
  | integer _ => "integer literal"
  | floating _ => "floating point literal"
  | text _ => "string literal"
  | name _ => "identifier"
  | path _ _ => "value"
  | call _ _ _ => "function"
  | lambda _ _ _ => "lambda expression"
  | unary _ _ => "unary operation"
  | binary _ _ _ => "binary operation"
  | choice _ _ _ => "choice"
  | assign _ _ => "assignment"
  | sequence _ _ => "semicolon"
  | list _ => "list literal"
  | set _ => "set literal"
  | map _ => "map literal"

/-- The trees that may stand as the target of a method expression. -/
def isMethodTarget : Node → Bool
  | name _ => true
  | path _ _ => true
  | plain _ => true
  | deferred body => body.isMethodTarget
  | dynamic body => body.isMethodTarget
  | choice _ yes no => yes.isMethodTarget && no.isMethodTarget
  | sequence _ second => second.isMethodTarget
  | _ => false

/-- The target carries its own argument list. -/
def endsInCall : Node → Bool
  | deferred body => body.endsInCall
  | dynamic body => body.endsInCall
  | path _ steps => steps.getLast?.any Step.isCall
  | _ => false

end Node

/-! ## Every part of a tree, parents first -/

mutual

def Node.parts : Node → List Node
  | .template ps => .template ps :: partsOfAll ps
  | .deferred b => .deferred b :: b.parts
  | .dynamic b => .dynamic b :: b.parts
  | .path b ss => .path b ss :: (b.parts ++ partsOfSteps ss)
  | .call ns n cs => .call ns n cs :: partsOfCalls cs
  | .lambda ps b cs => .lambda ps b cs :: (b.parts ++ partsOfCalls cs)
  | .unary op a => .unary op a :: a.parts
  | .binary op a b => .binary op a b :: (a.parts ++ b.parts)
  | .choice c a b => .choice c a b :: (c.parts ++ a.parts ++ b.parts)
  | .assign t v => .assign t v :: (t.parts ++ v.parts)
  | .sequence a b => .sequence a b :: (a.parts ++ b.parts)
  | .list xs => .list xs :: partsOfAll xs
  | .set xs => .set xs :: partsOfAll xs
  | .map es => .map es :: partsOfEntries es
  | .plain t => [.plain t]
  | .null => [.null]
  | .boolean b => [.boolean b]
  | .integer t => [.integer t]
  | .floating t => [.floating t]
  | .text t => [.text t]
  | .name n => [.name n]

def partsOfAll : List Node → List Node
  | [] => []
  | n :: ns => n.parts ++ partsOfAll ns

def partsOfCalls : List (List Node) → List Node
  | [] => []
  | c :: cs => partsOfAll c ++ partsOfCalls cs

def partsOfEntries : List (Node × Node) → List Node
  | [] => []
  | (k, v) :: es => k.parts ++ v.parts ++ partsOfEntries es

def partsOfSteps : List Step → List Node
  | [] => []
  | s :: ss => partsOfStep s ++ partsOfSteps ss

def partsOfStep : Step → List Node
  | .mk s a => partsOfSelector s ++ partsOfArgs a

def partsOfSelector : Selector → List Node
  | .field _ => []
  | .index n => n.parts

def partsOfArgs : Option (List Node) → List Node
  | none => []
  | some ns => partsOfAll ns

end

/-! ## Equality of trees -/

mutual

def Node.same : Node → Node → Bool
  | .plain a, .plain b => a == b
  | .template a, .template b => sameAll a b
  | .deferred a, .deferred b => a.same b
  | .dynamic a, .dynamic b => a.same b
  | .null, .null => true
  | .boolean a, .boolean b => a == b
  | .integer a, .integer b => a == b
  | .floating a, .floating b => a == b
  | .text a, .text b => a == b
  | .name a, .name b => a == b
  | .path a s, .path b t => a.same b && sameSteps s t
  | .call p m c, .call q n d => p == q && m == n && sameCalls c d
  | .lambda p a c, .lambda q b d => p == q && a.same b && sameCalls c d
  | .unary p a, .unary q b => p == q && a.same b
  | .binary p a b, .binary q c d => p == q && a.same c && b.same d
  | .choice a b c, .choice d e f => a.same d && b.same e && c.same f
  | .assign a b, .assign c d => a.same c && b.same d
  | .sequence a b, .sequence c d => a.same c && b.same d
  | .list a, .list b => sameAll a b
  | .set a, .set b => sameAll a b
  | .map a, .map b => sameEntries a b
  | _, _ => false

def sameAll : List Node → List Node → Bool
  | [], [] => true
  | a :: as, b :: bs => a.same b && sameAll as bs
  | _, _ => false

def sameCalls : List (List Node) → List (List Node) → Bool
  | [], [] => true
  | a :: as, b :: bs => sameAll a b && sameCalls as bs
  | _, _ => false

def sameEntries : List (Node × Node) → List (Node × Node) → Bool
  | [], [] => true
  | (a, b) :: as, (c, d) :: bs => a.same c && b.same d && sameEntries as bs
  | _, _ => false

def sameSteps : List Step → List Step → Bool
  | [], [] => true
  | a :: as, b :: bs => sameStep a b && sameSteps as bs
  | _, _ => false

def sameStep : Step → Step → Bool
  | .mk s a, .mk t b => sameSelector s t && sameArgs a b

def sameSelector : Selector → Selector → Bool
  | .field a, .field b => a == b
  | .index a, .index b => a.same b
  | _, _ => false

def sameArgs : Option (List Node) → Option (List Node) → Bool
  | none, none => true
  | some a, some b => sameAll a b
  | _, _ => false

end

mutual

theorem Node.eq_of_same : ∀ {a b : Node}, a.same b = true → a = b
  | .plain _, b, h => by cases b <;> simp_all [Node.same]
  | .template _, b, h => by
    cases b <;> simp [Node.same] at h
    exact congrArg _ (eq_of_sameAll h)
  | .deferred _, b, h => by
    cases b <;> simp [Node.same] at h
    exact congrArg _ (Node.eq_of_same h)
  | .dynamic _, b, h => by
    cases b <;> simp [Node.same] at h
    exact congrArg _ (Node.eq_of_same h)
  | .null, b, h => by cases b <;> simp_all [Node.same]
  | .boolean _, b, h => by cases b <;> simp_all [Node.same]
  | .integer _, b, h => by cases b <;> simp_all [Node.same]
  | .floating _, b, h => by cases b <;> simp_all [Node.same]
  | .text _, b, h => by cases b <;> simp_all [Node.same]
  | .name _, b, h => by cases b <;> simp_all [Node.same]
  | .path _ _, b, h => by
    cases b <;> simp [Node.same] at h
    exact congr (congrArg _ (Node.eq_of_same h.1)) (eq_of_sameSteps h.2)
  | .call _ _ _, b, h => by
    cases b <;> simp [Node.same] at h
    rw [h.1.1, h.1.2, eq_of_sameCalls h.2]
  | .lambda _ _ _, b, h => by
    cases b <;> simp [Node.same] at h
    rw [h.1.1, Node.eq_of_same h.1.2, eq_of_sameCalls h.2]
  | .unary _ _, b, h => by
    cases b <;> simp [Node.same] at h
    rw [h.1, Node.eq_of_same h.2]
  | .binary _ _ _, b, h => by
    cases b <;> simp [Node.same] at h
    rw [h.1.1, Node.eq_of_same h.1.2, Node.eq_of_same h.2]
  | .choice _ _ _, b, h => by
    cases b <;> simp [Node.same] at h
    rw [Node.eq_of_same h.1.1, Node.eq_of_same h.1.2, Node.eq_of_same h.2]
  | .assign _ _, b, h => by
    cases b <;> simp [Node.same] at h
    rw [Node.eq_of_same h.1, Node.eq_of_same h.2]
  | .sequence _ _, b, h => by
    cases b <;> simp [Node.same] at h
    rw [Node.eq_of_same h.1, Node.eq_of_same h.2]
  | .list _, b, h => by
    cases b <;> simp [Node.same] at h
    exact congrArg _ (eq_of_sameAll h)
  | .set _, b, h => by
    cases b <;> simp [Node.same] at h
    exact congrArg _ (eq_of_sameAll h)
  | .map _, b, h => by
    cases b <;> simp [Node.same] at h
    exact congrArg _ (eq_of_sameEntries h)

theorem eq_of_sameAll : ∀ {a b : List Node}, sameAll a b = true → a = b
  | [], b, h => by cases b <;> simp_all [sameAll]
  | _ :: _, b, h => by
    cases b <;> simp [sameAll] at h
    rw [Node.eq_of_same h.1, eq_of_sameAll h.2]

theorem eq_of_sameCalls : ∀ {a b : List (List Node)}, sameCalls a b = true → a = b
  | [], b, h => by cases b <;> simp_all [sameCalls]
  | _ :: _, b, h => by
    cases b <;> simp [sameCalls] at h
    rw [eq_of_sameAll h.1, eq_of_sameCalls h.2]

theorem eq_of_sameEntries : ∀ {a b : List (Node × Node)}, sameEntries a b = true → a = b
  | [], b, h => by cases b <;> simp_all [sameEntries]
  | (_, _) :: _, [], h => by simp [sameEntries] at h
  | (_, _) :: _, (_, _) :: _, h => by
    simp [sameEntries] at h
    rw [Node.eq_of_same h.1.1, Node.eq_of_same h.1.2, eq_of_sameEntries h.2]

theorem eq_of_sameSteps : ∀ {a b : List Step}, sameSteps a b = true → a = b
  | [], b, h => by cases b <;> simp_all [sameSteps]
  | _ :: _, b, h => by
    cases b <;> simp [sameSteps] at h
    rw [eq_of_sameStep h.1, eq_of_sameSteps h.2]

theorem eq_of_sameStep : ∀ {a b : Step}, sameStep a b = true → a = b
  | .mk _ _, .mk _ _, h => by
    simp [sameStep] at h
    rw [eq_of_sameSelector h.1, eq_of_sameArgs h.2]

theorem eq_of_sameSelector : ∀ {a b : Selector}, sameSelector a b = true → a = b
  | .field _, b, h => by cases b <;> simp_all [sameSelector]
  | .index _, b, h => by
    cases b <;> simp [sameSelector] at h
    rw [Node.eq_of_same h]

theorem eq_of_sameArgs : ∀ {a b : Option (List Node)}, sameArgs a b = true → a = b
  | none, b, h => by cases b <;> simp_all [sameArgs]
  | some _, b, h => by
    cases b <;> simp [sameArgs] at h
    rw [eq_of_sameAll h]

end

mutual

theorem Node.same_refl : ∀ a : Node, a.same a = true
  | .template ps => by simp [Node.same, sameAll_refl ps]
  | .deferred b => by simp [Node.same, b.same_refl]
  | .dynamic b => by simp [Node.same, b.same_refl]
  | .path b ss => by simp [Node.same, b.same_refl, sameSteps_refl ss]
  | .call _ _ cs => by simp [Node.same, sameCalls_refl cs]
  | .lambda _ b cs => by simp [Node.same, b.same_refl, sameCalls_refl cs]
  | .unary _ a => by simp [Node.same, a.same_refl]
  | .binary _ a b => by simp [Node.same, a.same_refl, b.same_refl]
  | .choice a b c => by simp [Node.same, a.same_refl, b.same_refl, c.same_refl]
  | .assign a b => by simp [Node.same, a.same_refl, b.same_refl]
  | .sequence a b => by simp [Node.same, a.same_refl, b.same_refl]
  | .list xs => by simp [Node.same, sameAll_refl xs]
  | .set xs => by simp [Node.same, sameAll_refl xs]
  | .map es => by simp [Node.same, sameEntries_refl es]
  | .plain _ => by simp [Node.same]
  | .null => by simp [Node.same]
  | .boolean _ => by simp [Node.same]
  | .integer _ => by simp [Node.same]
  | .floating _ => by simp [Node.same]
  | .text _ => by simp [Node.same]
  | .name _ => by simp [Node.same]

theorem sameAll_refl : ∀ a : List Node, sameAll a a = true
  | [] => by simp [sameAll]
  | n :: ns => by simp [sameAll, n.same_refl, sameAll_refl ns]

theorem sameCalls_refl : ∀ a : List (List Node), sameCalls a a = true
  | [] => by simp [sameCalls]
  | c :: cs => by simp [sameCalls, sameAll_refl c, sameCalls_refl cs]

theorem sameEntries_refl : ∀ a : List (Node × Node), sameEntries a a = true
  | [] => by simp [sameEntries]
  | (k, v) :: es => by simp [sameEntries, k.same_refl, v.same_refl, sameEntries_refl es]

theorem sameSteps_refl : ∀ a : List Step, sameSteps a a = true
  | [] => by simp [sameSteps]
  | s :: ss => by simp [sameSteps, sameStep_refl s, sameSteps_refl ss]

theorem sameStep_refl : ∀ a : Step, sameStep a a = true
  | .mk s a => by simp [sameStep, sameSelector_refl s, sameArgs_refl a]

theorem sameSelector_refl : ∀ a : Selector, sameSelector a a = true
  | .field _ => by simp [sameSelector]
  | .index n => by simp [sameSelector, n.same_refl]

theorem sameArgs_refl : ∀ a : Option (List Node), sameArgs a a = true
  | none => by simp [sameArgs]
  | some ns => by simp [sameArgs, sameAll_refl ns]

end

theorem Node.same_eq_true_iff {a b : Node} : a.same b = true ↔ a = b :=
  ⟨Node.eq_of_same, fun h => h ▸ a.same_refl⟩

instance : DecidableEq Node := fun a b =>
  if h : a.same b = true then isTrue (Node.eq_of_same h)
  else isFalse fun e => h (Node.same_eq_true_iff.2 e)

end ExprLang
