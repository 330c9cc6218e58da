import ExprLang.Json
import ExprLang.Node

/-! Trees as JSON values: an object whose one key names the kind of the tree. -/

namespace ExprLang

def UnaryOp.tag : UnaryOp → String
  | neg => "Neg" | not => "Not" | empty => "Empty"

def BinaryOp.tag : BinaryOp → String
  | add => "Add" | sub => "Sub" | mul => "Mul" | div => "Div" | mod => "Mod"
  | concat => "Concat" | eq => "Eq" | ne => "Ne" | lt => "Lt" | gt => "Gt" | le => "Le"
  | ge => "Ge" | and => "And" | or => "Or" | elvis => "Elvis" | coalesce => "Coalesce"

mutual

def Node.toJson : Node → Json
  | .plain t => .tagged "LiteralText" (.string t)
  | .template ps => .tagged "Composite" (.array (nodesToJson ps))
  | .deferred b => .tagged "Deferred" b.toJson
  | .dynamic b => .tagged "Dynamic" b.toJson
  | .null => .string "Null"
  | .boolean b => .tagged "Boolean" (.bool b)
  | .integer t => .tagged "Integer" (.string t)
  | .floating t => .tagged "FloatingPoint" (.string t)
  | .text t => .tagged "String" (.string t)
  | .name n => .tagged "Identifier" (.string n)
  | .path b ss =>
    .tagged "Value" (.object [("prefix", b.toJson), ("suffixes", .array (stepsToJson ss))])
  | .call ns n cs =>
    .tagged "Function"
      (.object [("prefix", .string ns), ("name", .string n), ("calls", .array (callsToJson cs))])
  | .lambda ps b cs =>
    .tagged "Lambda" (.object
      [("params", .array (ps.map .string)), ("body", b.toJson), ("calls", .array (callsToJson cs))])
  | .unary op a => .tagged "Unary" (.object [("op", .string op.tag), ("operand", a.toJson)])
  | .binary op a b =>
    .tagged "Binary" (.object [("op", .string op.tag), ("left", a.toJson), ("right", b.toJson)])
  | .choice c a b =>
    .tagged "Choice" (.object
      [("condition", c.toJson), ("then_branch", a.toJson), ("else_branch", b.toJson)])
  | .assign t v => .tagged "Assign" (.object [("target", t.toJson), ("value", v.toJson)])
  | .sequence a b => .tagged "Semicolon" (.object [("first", a.toJson), ("second", b.toJson)])
  | .list xs => .tagged "ListData" (.array (nodesToJson xs))
  | .set xs => .tagged "SetData" (.array (nodesToJson xs))
  | .map es => .tagged "MapData" (.array (entriesToJson es))

def nodesToJson : List Node → List Json
  | [] => []
  | n :: ns => n.toJson :: nodesToJson ns

def callsToJson : List (List Node) → List Json
  | [] => []
  | c :: cs => .array (nodesToJson c) :: callsToJson cs

def entriesToJson : List (Node × Node) → List Json
  | [] => []
  | (k, v) :: es => .array [k.toJson, v.toJson] :: entriesToJson es

def stepsToJson : List Step → List Json
  | [] => []
  | s :: ss => stepToJson s :: stepsToJson ss

def stepToJson : Step → Json
  | .mk s a => .object [("property", selectorToJson s), ("args", argsToJson a)]

def selectorToJson : Selector → Json
  | .field n => .tagged "Name" (.string n)
  | .index n => .tagged "Index" n.toJson

def argsToJson : Option (List Node) → Json
  | none => .null
  | some ns => .array (nodesToJson ns)

end

/-! ## Reading -/

def UnaryOp.ofTag? (tag : String) : Option UnaryOp :=
  [.neg, .not, .empty].find? fun op : UnaryOp => op.tag == tag

def BinaryOp.ofTag? (tag : String) : Option BinaryOp :=
  [.add, .sub, .mul, .div, .mod, .concat, .eq, .ne, .lt, .gt, .le, .ge, .and, .or, .elvis,
    .coalesce].find? fun op : BinaryOp => op.tag == tag

namespace Node

/-- The list that a reader of items makes of a member. -/
def listOf? {α : Type} (read : Json → Option α) (j : Json) : Option (List α) :=
  j.array?.bind (·.mapM read)

/-- The tree of a value that nests at most `depth` others. -/
def ofJsonAt : Nat → Json → Option Node
  | 0, _ => none
  | _ + 1, .string s => if s == "Null" then some .null else none
  | depth + 1, .object [(tag, j)] =>
    let read := ofJsonAt depth
    let part (key : String) : Option Node := (j.member? key).bind read
    let word (key : String) : Option String := (j.member? key).bind Json.string?
    let calls : Option (List (List Node)) := (j.member? "calls").bind (listOf? (listOf? read))
    let selector (j : Json) : Option Selector :=
      match j with
      | .object [("Name", .string s)] => some (.field s)
      | .object [("Index", n)] => Selector.index <$> read n
      | _ => none
    let step (j : Json) : Option Step := do
      let s ← (j.member? "property").bind selector
      match j.member? "args" with
      | none => pure (.mk s none)
      | some .null => pure (.mk s none)
      | some args => (fun ns => .mk s (some ns)) <$> listOf? read args
    let entry (j : Json) : Option (Node × Node) :=
      match j with
      | .array [k, v] => do pure (← read k, ← read v)
      | _ => none
    match tag with
    | "LiteralText" => Node.plain <$> j.string?
    | "Composite" => Node.template <$> listOf? read j
    | "Deferred" => Node.deferred <$> read j
    | "Dynamic" => Node.dynamic <$> read j
    | "Boolean" =>
      match j with
      | .bool b => some (.boolean b)
      | _ => none
    | "Integer" => Node.integer <$> j.string?
    | "FloatingPoint" => Node.floating <$> j.string?
    | "String" => Node.text <$> j.string?
    | "Identifier" => Node.name <$> j.string?
    | "Value" => do pure (.path (← part "prefix") (← (j.member? "suffixes").bind (listOf? step)))
    | "Function" => do pure (.call (← word "prefix") (← word "name") (← calls))
    | "Lambda" => do
      let params ← (j.member? "params").bind (listOf? Json.string?)
      pure (.lambda params (← part "body") (← calls))
    | "Unary" => do pure (.unary (← (← word "op") |> UnaryOp.ofTag?) (← part "operand"))
    | "Binary" => do
      pure (.binary (← (← word "op") |> BinaryOp.ofTag?) (← part "left") (← part "right"))
    | "Choice" => do
      pure (.choice (← part "condition") (← part "then_branch") (← part "else_branch"))
    | "Assign" => do pure (.assign (← part "target") (← part "value"))
    | "Semicolon" => do pure (.sequence (← part "first") (← part "second"))
    | "ListData" => Node.list <$> listOf? read j
    | "SetData" => Node.set <$> listOf? read j
    | "MapData" => Node.map <$> listOf? entry j
    | _ => none
  | _, _ => none

/-- The tree that a value stands for. -/
def ofJson? (j : Json) : Option Node := ofJsonAt (j.depth + 1) j

end Node

/-! ## The walk over a tree, one line a part -/

/-- How a step shows in the walk: a name or an index, perhaps with arguments. -/
def Step.mark (s : Step) : String :=
  (match s.selector with | .field _ => "." | .index _ => "[]") ++ (if s.isCall then "()" else "")

/-- The line of a part in the walk. -/
def Node.summary (n : Node) : String :=
  match n with
  | .binary op _ _ => n.kind ++ " " ++ op.sign ++ (if op.isLazy then " lazy" else "")
  | .unary op _ => n.kind ++ " " ++ op.sign
  | .path _ steps => n.kind ++ String.join (steps.map fun s => " " ++ s.mark)
  | _ => n.kind

def Node.walk (n : Node) : List String := n.parts.map Node.summary

end ExprLang
