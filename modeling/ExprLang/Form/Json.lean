import ExprLang.Form
import ExprLang.Json.Reader

/-! Forms of expressions as JSON texts. -/

namespace ExprLang

/-! ## Writing -/

/-- A member, unless there is nothing to write. -/
def Json.optional (key : String) (value : Option Json) : List (String × Json) :=
  (value.map fun v => (key, v)).toList

/-- A member for a list, unless the list is empty. -/
def Json.nonempty (key : String) (items : List Json) : List (String × Json) :=
  if items.isEmpty then [] else [(key, .array items)]

def FunctionForm.toJson (f : FunctionForm) : Json :=
  .object (Json.optional "prefix" (if f.ns.isEmpty then none else some (.string f.ns)) ++
    [("name", .string f.name), ("class", .string f.cls), ("method", .string f.method),
      ("params", .array (f.params.map .string))])

namespace Form

mutual

def toJson : Form → Json
  | .value text expected functions vars =>
    .object ([("kind", .string "value"), ("text", .string text)] ++
      Json.optional "expected_type" (expected.map .string) ++
      Json.nonempty "functions" (functions.map FunctionForm.toJson) ++
      variablesMember (variablesToJson vars))
  | .literal content typeName expected =>
    .object ([("kind", .string "literal")] ++ Json.optional "value" (content.map .string) ++
      Json.optional "value_type" (typeName.map .string) ++
      Json.optional "expected_type" (expected.map .string))
  | .method text returns params functions vars =>
    .object ([("kind", .string "method"), ("text", .string text)] ++
      Json.optional "expected_type" (returns.map .string) ++
      Json.optional "param_types" (params.map fun ts => .array (ts.map .string)) ++
      Json.nonempty "functions" (functions.map FunctionForm.toJson) ++
      variablesMember (variablesToJson vars))

def variablesToJson : List (String × Form) → List (String × Json)
  | [] => []
  | (name, form) :: rest => (name, form.toJson) :: variablesToJson rest

def variablesMember (ms : List (String × Json)) : List (String × Json) :=
  if ms.isEmpty then [] else [("variables", .object ms)]

end

/-- The text of a form. -/
def toText (f : Form) : String := f.toJson.render

/-! ## Reading -/

/-- The values of fields by their places. An array gives them in order, an object by their names; it
may hold others. -/
def fields? (names : List String) (j : Json) : Option (List (Option Json)) :=
  match j with
  | .array xs =>
    if xs.length ≤ names.length then some (names.zipIdx.map fun (_, i) => xs[i]?) else none
  | .object ms =>
    names.mapM fun name =>
      match ms.filter (·.1 == name) with
      | [] => some none
      | [(_, v)] => some (some v)
      | _ => none
  | _ => none

/-- The text of a field that has to be there. -/
def text? (j : Option Json) : Option String := j.bind Json.string?

/-- A field that may be missing or null. -/
def optional? {α : Type} (read : Json → Option α) (j : Option Json) : Option (Option α) :=
  match j with
  | none => some none
  | some .null => some none
  | some j => some <$> read j

/-- A field that has a default where it is missing. -/
def withDefault? {α : Type} (default : α) (read : Json → Option α) (j : Option Json) : Option α :=
  match j with
  | none => some default
  | some j => read j

def texts? (j : Json) : Option (List String) := j.array?.bind (·.mapM Json.string?)

def function? (j : Json) : Option FunctionForm := do
  let [ns, name, cls, member, params] ← fields? ["prefix", "name", "class", "method", "params"] j
    | none
  pure ⟨← withDefault? "" Json.string? ns, ← text? name, ← text? cls, ← text? member,
    ← params.bind texts?⟩

def functions? (j : Option Json) : Option (List FunctionForm) :=
  withDefault? [] (fun j => j.array?.bind (·.mapM function?)) j

/-- The kinds of forms, in the order of their numbers. -/
def kinds : List String := ["value", "literal", "method"]

/-- The kind that a tag names. Inside another form it may be a number. -/
def kind? (inner : Bool) (tag : Json) : Option String :=
  match tag with
  | .string s => if kinds.contains s then some s else none
  | .number text => if inner then text.toNat?.bind (kinds[·]?) else none
  | _ => none

/-- The tag of a form, and the form without it. An array begins with the tag. -/
def untag? (j : Json) : Option (Json × Json) :=
  match j with
  | .array (tag :: rest) => some (tag, .array rest)
  | .object ms =>
    match ms.filter (·.1 == "kind") with
    | [(_, tag)] => some (tag, .object (ms.filter (·.1 != "kind")))
    | _ => none
  | _ => none

/-- The form of a value that nests at most `depth` others. -/
def ofJsonAt (inner : Bool) : Nat → Json → Option Form
  | 0, _ => none
  | depth + 1, j => do
    let (tag, content) ← untag? j
    let forms? (j : Option Json) : Option (List (String × Form)) :=
      match j with
      | none => some []
      | some (.object ms) => do
        let forms ← ms.mapM fun (name, v) => (ofJsonAt true depth v).map (name, ·)
        pure (forms.foldl (fun b (name, f) => Bindings.insert b name f) [])
      | some _ => none
    match ← kind? inner tag with
    | "value" =>
      let [text, expected, functions, vars] ←
        fields? ["text", "expected_type", "functions", "variables"] content | none
      pure (.value (← text? text) (← optional? Json.string? expected) (← functions? functions)
        (← forms? vars))
    | "literal" =>
      let [part, typeName, expected] ← fields? ["value", "value_type", "expected_type"] content
        | none
      pure (.literal (← optional? Json.string? part) (← optional? Json.string? typeName)
        (← optional? Json.string? expected))
    | _ =>
      let [text, returns, params, functions, vars] ←
        fields? ["text", "expected_type", "param_types", "functions", "variables"] content | none
      pure (.method (← text? text) (← optional? Json.string? returns) (← optional? texts? params)
        (← functions? functions) (← forms? vars))

def ofJson? (j : Json) : Option Form := ofJsonAt false (j.depth + 1) j

/-- The form that a text stands for. -/
def ofText (s : String) : Except Fault Form :=
  match (Json.ofText? s).bind ofJson? with
  | some f => .ok f
  | none => .error .unreadableForm

end Form

end ExprLang
