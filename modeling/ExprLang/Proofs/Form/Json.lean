import ExprLang.Form.Json
import ExprLang.Proofs.Bindings
import ExprLang.Proofs.Json.Text
import ExprLang.Proofs.Lists

/-! A form reads back from its JSON value, and from its text. -/

namespace ExprLang

/-! ## Fields -/

namespace Json

/-- The members of the fields that hold something. -/
def present (names : List String) (values : List (Option Json)) : List (String × Json) :=
  (names.zip values).filterMap fun (name, v) => v.map (name, ·)

/-- An array, unless it were empty. -/
def listed (items : List Json) : Option Json :=
  if items.isEmpty then none else some (.array items)

@[simp] theorem present_nil : present [] [] = [] := rfl

theorem present_cons (name : String) (v : Option Json) (names : List String)
    (values : List (Option Json)) :
    present (name :: names) (v :: values) = (v.map (name, ·)).toList ++ present names values := by
  cases v <;> rfl

theorem name_of_mem_present {names : List String} {values : List (Option Json)} {m : String × Json}
    (h : m ∈ present names values) : m.1 ∈ names := by
  obtain ⟨⟨name, v⟩, hfield, hv⟩ := List.mem_filterMap.mp h
  obtain ⟨x, -, rfl⟩ := Option.map_eq_some_iff.mp hv
  exact (List.of_mem_zip hfield).1

theorem filter_present {names : List String} {values : List (Option Json)} (hnames : names.Nodup)
    {name : String} {v : Option Json} (h : (name, v) ∈ names.zip values) :
    (present names values).filter (·.1 == name) = (v.map (name, ·)).toList := by
  induction names generalizing values with
  | nil => cases h
  | cons other names ih =>
    cases values with
    | nil => cases h
    | cons w values =>
      rw [List.nodup_cons] at hnames
      rw [present_cons, List.filter_append]
      rcases List.mem_cons.mp h with h | h
      · cases h
        have hrest : (present names values).filter (·.1 == name) = [] := by
          rw [List.filter_eq_nil_iff]
          exact fun m hm hname => hnames.1 (eq_of_beq hname ▸ name_of_mem_present hm)
        rw [hrest]
        cases v <;> simp
      · have hne : (other == name) = false := by
          rw [beq_eq_false_iff_ne]
          rintro rfl
          exact hnames.1 (List.of_mem_zip h).1
        rw [ih hnames.2 h]
        cases w <;> simp [hne]

end Json

open Json (present listed)

namespace Form

theorem fields?_present (names : List String) (values : List (Option Json))
    (hnames : names.Nodup) (hlength : names.length = values.length) :
    fields? names (.object (present names values)) = some values := by
  have hfilter (field : String × Option Json) (hfield : field ∈ names.zip values) :=
    Json.filter_present hnames hfield
  rw [fields?]
  generalize present names values = ms at hfilter ⊢
  have hfst := List.map_fst_zip (Nat.le_of_eq hlength)
  have hsnd := List.map_snd_zip (Nat.le_of_eq hlength.symm)
  generalize names.zip values = fields at hfilter hfst hsnd
  rw [← hfst, ← hsnd, List.mapM_map]
  refine mapM_eq_some_map fun field hfield => ?_
  simp only [Function.comp_apply, hfilter field hfield]
  cases field.2 <;> rfl

/-- The tag of a form stands before its fields. -/
theorem untag?_present {names : List String} {values : List (Option Json)} {tag : Json}
    (hnames : "kind" ∉ names) :
    untag? (.object (("kind", tag) :: present names values)) =
      some (tag, .object (present names values)) := by
  have hother : ∀ m ∈ present names values, (m.1 == "kind") = false := by
    intro m hm
    rw [beq_eq_false_iff_ne]
    exact fun h => hnames (h ▸ Json.name_of_mem_present hm)
  have hnone : (present names values).filter (·.1 == "kind") = [] := by
    rw [List.filter_eq_nil_iff]
    intro m hm
    rw [hother m hm]
    exact Bool.false_ne_true
  have hall : (present names values).filter (·.1 != "kind") = present names values := by
    rw [List.filter_eq_self]
    intro m hm
    rw [bne, hother m hm]
    rfl
  unfold untag?
  simp [hnone, hall]

theorem texts?_map (ss : List String) : texts? (.array (ss.map .string)) = some ss := by
  have h : ss.mapM (Json.string? ∘ Json.string) = some (ss.map id) :=
    mapM_eq_some_map fun _ _ => rfl
  rw [List.map_id] at h
  simp only [texts?, Json.array?, Option.bind_some, List.mapM_map]
  exact h

theorem optional?_map {α : Type} {read : Json → Option α} {write : α → Json}
    (h : ∀ a, write a ≠ .null ∧ read (write a) = some a) (a : Option α) :
    optional? read (a.map write) = some a := by
  cases a with
  | none => rfl
  | some a =>
    obtain ⟨hnull, hread⟩ := h a
    rw [Option.map_some, optional?, hread]
    · rfl
    · exact hnull

theorem optional?_string (s : Option String) : optional? Json.string? (s.map .string) = some s :=
  have hread (s : String) : Json.string s ≠ .null ∧ Json.string? (.string s) = some s :=
    ⟨by simp, rfl⟩
  optional?_map hread s

theorem optional?_texts (ss : Option (List String)) :
    optional? texts? (ss.map fun ts => .array (ts.map .string)) = some ss :=
  optional?_map (fun ts => ⟨by simp, texts?_map ts⟩) ss

/-! ## Functions -/

def functionFields : List String := ["prefix", "name", "class", "method", "params"]

def functionValues (f : FunctionForm) : List (Option Json) :=
  [if f.ns.isEmpty then none else some (.string f.ns), some (.string f.name), some (.string f.cls),
    some (.string f.method), some (.array (f.params.map .string))]

theorem toJson_function (f : FunctionForm) :
    f.toJson = .object (present functionFields (functionValues f)) := by
  unfold FunctionForm.toJson Json.optional functionFields functionValues
  split <;> rfl

theorem function?_toJson (f : FunctionForm) : function? f.toJson = some f := by
  have hfields : fields? ["prefix", "name", "class", "method", "params"] f.toJson =
      some (functionValues f) := by
    rw [toJson_function]
    exact fields?_present _ _ (by decide) rfl
  have hns : withDefault? "" Json.string? (if f.ns.isEmpty then none else some (.string f.ns)) =
      some f.ns := by
    split
    · next h =>
      rw [String.isEmpty_iff] at h
      rw [h]
      rfl
    · rfl
  unfold function?
  rw [hfields]
  simp only [functionValues, Option.bind_eq_bind, Option.bind_some, hns, text?, Json.string?,
    texts?_map]
  rfl

theorem functions?_listed (fs : List FunctionForm) :
    functions? (Json.listed (fs.map FunctionForm.toJson)) = some fs := by
  have h : fs.mapM (function? ∘ FunctionForm.toJson) = some (fs.map id) :=
    mapM_eq_some_map fun f _ => function?_toJson f
  rw [List.map_id] at h
  unfold functions? Json.listed
  cases fs with
  | nil => rfl
  | cons f fs =>
    rw [← List.mapM_map] at h
    exact h

/-! ## Forms -/

def fieldsOf : Form → List String
  | .value _ _ _ _ => ["text", "expected_type", "functions", "variables"]
  | .literal _ _ _ => ["value", "value_type", "expected_type"]
  | .method _ _ _ _ _ => ["text", "expected_type", "param_types", "functions", "variables"]

/-- The object of the variables, unless there are none. -/
def variablesOf (vars : List (String × Form)) : Option Json :=
  if vars.isEmpty then none else some (.object (variablesToJson vars))

def valuesOf : Form → List (Option Json)
  | .value text expected functions vars =>
    [some (.string text), expected.map .string, listed (functions.map FunctionForm.toJson),
      variablesOf vars]
  | .literal content typeName expected =>
    [content.map .string, typeName.map .string, expected.map .string]
  | .method text returns params functions vars =>
    [some (.string text), returns.map .string, params.map fun ts => .array (ts.map .string),
      listed (functions.map FunctionForm.toJson), variablesOf vars]

def kindOf : Form → String
  | .value _ _ _ _ => "value"
  | .literal _ _ _ => "literal"
  | .method _ _ _ _ _ => "method"

theorem variablesMember_eq (vars : List (String × Form)) :
    variablesMember (variablesToJson vars) = ((variablesOf vars).map ("variables", ·)).toList := by
  cases vars with
  | nil => simp [variablesToJson, variablesMember, variablesOf]
  | cons e vars =>
    obtain ⟨name, form⟩ := e
    simp [variablesToJson, variablesMember, variablesOf]

theorem nonempty_eq (key : String) (items : List Json) :
    Json.nonempty key items = ((listed items).map (key, ·)).toList := by
  unfold Json.nonempty listed
  split <;> rfl

/-- A form is written with its kind before those fields that hold something. -/
theorem toJson_eq (f : Form) :
    f.toJson = .object (("kind", .string f.kindOf) :: present f.fieldsOf f.valuesOf) := by
  cases f <;>
    simp [toJson, kindOf, fieldsOf, valuesOf, Json.present_cons, variablesMember_eq, nonempty_eq,
      Json.optional]

theorem variablesToJson_eq (vars : List (String × Form)) :
    variablesToJson vars = vars.map fun e => (e.1, e.2.toJson) := by
  induction vars with
  | nil => rw [variablesToJson]; rfl
  | cons e vars ih =>
    obtain ⟨name, form⟩ := e
    rw [variablesToJson, ih]
    rfl

/-- The variables of a form, and of the forms in it, stand in the order of their names. -/
inductive Sorted : Form → Prop
  | value (text : String) (expected : Option String) (functions : List FunctionForm)
      {vars : List (String × Form)} (ordered : Bindings.Ordered vars)
      (each : ∀ e ∈ vars, Sorted e.2) : Sorted (.value text expected functions vars)
  | literal (content typeName expected : Option String) : Sorted (.literal content typeName expected)
  | method (text : String) (returns : Option String) (params : Option (List String))
      (functions : List FunctionForm) {vars : List (String × Form)}
      (ordered : Bindings.Ordered vars) (each : ∀ e ∈ vars, Sorted e.2) :
      Sorted (.method text returns params functions vars)

/-! ### Depth -/

theorem le_membersDepth {ms : List (String × Json)} {m : String × Json} (h : m ∈ ms) :
    m.2.depth ≤ Json.membersDepth ms := by
  induction ms with
  | nil => cases h
  | cons n ms ih =>
    obtain ⟨k, v⟩ := n
    rw [Json.membersDepth]
    rcases List.mem_cons.mp h with rfl | h
    · exact Nat.le_max_left _ _
    · exact (ih h).trans (Nat.le_max_right _ _)

/-- What is bound in a form nests two levels less than the form. -/
theorem depth_of_mem_vars {f : Form} {vars : List (String × Form)}
    (hvars : ("variables", variablesOf vars) ∈ f.fieldsOf.zip f.valuesOf) {e : String × Form}
    (he : e ∈ vars) : e.2.toJson.depth + 2 ≤ f.toJson.depth := by
  have hsome : variablesOf vars = some (.object (variablesToJson vars)) := by
    unfold variablesOf
    rw [if_neg]
    rw [List.isEmpty_iff]
    rintro rfl
    cases he
  have hinner : (e.1, e.2.toJson) ∈ variablesToJson vars := by
    rw [variablesToJson_eq]
    exact List.mem_map.mpr ⟨e, he, rfl⟩
  have houter : ("variables", Json.object (variablesToJson vars)) ∈
      ("kind", Json.string f.kindOf) :: present f.fieldsOf f.valuesOf := by
    refine List.mem_cons_of_mem _ (List.mem_filterMap.mpr ⟨_, hvars, ?_⟩)
    rw [hsome]
    rfl
  have h1 : e.2.toJson.depth ≤ Json.membersDepth (variablesToJson vars) := le_membersDepth hinner
  have h2 : Json.membersDepth (variablesToJson vars) + 1 ≤ Json.membersDepth
      (("kind", Json.string f.kindOf) :: present f.fieldsOf f.valuesOf) := by
    have := le_membersDepth houter
    rwa [Json.depth] at this
  have h3 : f.toJson.depth = Json.membersDepth
      (("kind", Json.string f.kindOf) :: present f.fieldsOf f.valuesOf) + 1 := by
    rw [toJson_eq f, Json.depth]
  omega

/-! ### Reading -/

/-- Variables in order are read as they were written. -/
theorem variables_read {vars : List (String × Form)} (ordered : Bindings.Ordered vars) {depth : Nat}
    (hread : ∀ e ∈ vars, ofJsonAt true depth e.2.toJson = some e.2) :
    (match variablesOf vars with
      | none => some []
      | some (.object ms) =>
        (ms.mapM fun m => (ofJsonAt true depth m.2).map (m.1, ·)).bind fun forms =>
          some (forms.foldl (fun b e => Bindings.insert b e.1 e.2) [])
      | some _ => none) = some vars := by
  have hbuilt : vars.foldl (fun b e => Bindings.insert b e.1 e.2) [] = vars :=
    Bindings.override_append (b := []) ordered
  unfold variablesOf
  cases vars with
  | nil => rfl
  | cons e vars =>
    have hmap : (e :: vars).mapM ((fun m : String × Json => (ofJsonAt true depth m.2).map (m.1, ·)) ∘
        fun e : String × Form => (e.1, e.2.toJson)) = some ((e :: vars).map id) :=
      mapM_eq_some_map fun d hd => by
        rw [Function.comp_apply, hread d hd]
        rfl
    rw [List.map_id, ← List.mapM_map, ← variablesToJson_eq] at hmap
    simp only [List.isEmpty_cons, Bool.false_eq_true, if_false]
    rw [hmap]
    exact congrArg some hbuilt

/-- A form whose variables are in order reads back from its JSON value. -/
theorem ofJsonAt_toJson {f : Form} (hf : f.Sorted) (inner : Bool) {depth : Nat}
    (hdepth : f.toJson.depth < depth) : ofJsonAt inner depth f.toJson = some f := by
  induction hf generalizing inner depth with
  | literal content typeName expected =>
    obtain ⟨depth, rfl⟩ := Nat.exists_eq_add_one.mpr (Nat.zero_lt_of_lt hdepth)
    have hfields := fields?_present ["value", "value_type", "expected_type"]
      [content.map .string, typeName.map .string, expected.map .string]
      (by decide) rfl
    have hjson := toJson_eq (.literal content typeName expected)
    simp only [kindOf, fieldsOf, valuesOf] at hjson
    rw [hjson, ofJsonAt, untag?_present (by decide)]
    simp [kind?, kinds, hfields, optional?_string]
  | @value text expected functions vars ordered each ih =>
    obtain ⟨depth, rfl⟩ := Nat.exists_eq_add_one.mpr (Nat.zero_lt_of_lt hdepth)
    have hfields := fields?_present ["text", "expected_type", "functions", "variables"]
      [some (.string text), expected.map .string,
        listed (functions.map FunctionForm.toJson), variablesOf vars] (by decide) rfl
    have hmem : ("variables", variablesOf vars) ∈
        (fieldsOf (.value text expected functions vars)).zip
          (valuesOf (.value text expected functions vars)) := by simp [fieldsOf, valuesOf]
    have hbelow (e : String × Form) (he : e ∈ vars) : e.2.toJson.depth < depth := by
      have := depth_of_mem_vars hmem he
      omega
    have hvars := variables_read ordered fun e he => ih e he true (hbelow e he)
    have hjson := toJson_eq (.value text expected functions vars)
    simp only [kindOf, fieldsOf, valuesOf] at hjson
    rw [hjson, ofJsonAt, untag?_present (by decide)]
    have hkind : kind? inner (.string "value") = some "value" := rfl
    simp only [hkind, hfields, Option.bind_eq_bind, Option.bind_some, Option.pure_def, text?,
      Json.string?, optional?_string, functions?_listed]
    exact congrArg (Option.bind · fun vars => some (value text expected functions vars)) hvars
  | @method text returns params functions vars ordered each ih =>
    obtain ⟨depth, rfl⟩ := Nat.exists_eq_add_one.mpr (Nat.zero_lt_of_lt hdepth)
    have hfields := fields?_present
      ["text", "expected_type", "param_types", "functions", "variables"]
      [some (.string text), returns.map .string,
        params.map fun ts => .array (ts.map .string), listed (functions.map FunctionForm.toJson),
        variablesOf vars] (by decide) rfl
    have hmem : ("variables", variablesOf vars) ∈
        (fieldsOf (.method text returns params functions vars)).zip
          (valuesOf (.method text returns params functions vars)) := by simp [fieldsOf, valuesOf]
    have hbelow (e : String × Form) (he : e ∈ vars) : e.2.toJson.depth < depth := by
      have := depth_of_mem_vars hmem he
      omega
    have hvars := variables_read ordered fun e he => ih e he true (hbelow e he)
    have hjson := toJson_eq (.method text returns params functions vars)
    simp only [kindOf, fieldsOf, valuesOf] at hjson
    rw [hjson, ofJsonAt, untag?_present (by decide)]
    have hkind : kind? inner (.string "method") = some "method" := rfl
    simp only [hkind, hfields, Option.bind_eq_bind, Option.bind_some, Option.pure_def, text?,
      Json.string?, optional?_string, optional?_texts, functions?_listed]
    exact congrArg (Option.bind · fun vars => some (method text returns params functions vars)) hvars

/-! ## Texts -/

theorem numberFree_present {names : List String} {values : List (Option Json)}
    (h : ∀ v ∈ values, ∀ j ∈ v, Json.NumberFree j) :
    Json.MembersNumberFree (present names values) := by
  rw [Json.membersNumberFree_iff]
  intro m hm
  obtain ⟨⟨name, v⟩, hfield, hv⟩ := List.mem_filterMap.mp hm
  obtain ⟨j, hj, rfl⟩ := Option.map_eq_some_iff.mp hv
  exact h v (List.of_mem_zip hfield).2 j hj

theorem numberFree_function (f : FunctionForm) : Json.NumberFree f.toJson := by
  rw [toJson_function]
  refine numberFree_present fun v hv j hj => ?_
  simp only [functionValues, List.mem_cons, List.not_mem_nil, or_false] at hv
  rcases hv with rfl | rfl | rfl | rfl | rfl
  · split at hj
    · cases hj
    · cases hj
      trivial
  · cases hj
    trivial
  · cases hj
    trivial
  · cases hj
    trivial
  · cases hj
    exact Json.itemsNumberFree_strings f.params

/-- No number is written for a form. -/
theorem numberFree_toJson {f : Form} (hf : f.Sorted) : Json.NumberFree f.toJson := by
  have hstring (s : Option String) (j : Json) (hj : j ∈ s.map Json.string) : Json.NumberFree j := by
    obtain ⟨t, -, rfl⟩ := Option.map_eq_some_iff.mp hj
    trivial
  have hfunctions (fs : List FunctionForm) (j : Json)
      (hj : j ∈ listed (fs.map FunctionForm.toJson)) : Json.NumberFree j := by
    unfold listed at hj
    split at hj
    · cases hj
    · cases hj
      refine Json.itemsNumberFree_iff.mpr fun x hx => ?_
      obtain ⟨f, -, rfl⟩ := List.mem_map.mp hx
      exact numberFree_function f
  have hvariables {vars : List (String × Form)} (each : ∀ e ∈ vars, Json.NumberFree e.2.toJson)
      (j : Json) (hj : j ∈ variablesOf vars) : Json.NumberFree j := by
    unfold variablesOf at hj
    split at hj
    · cases hj
    · cases hj
      refine Json.membersNumberFree_iff.mpr fun m hm => ?_
      rw [variablesToJson_eq] at hm
      obtain ⟨e, he, rfl⟩ := List.mem_map.mp hm
      exact each e he
  induction hf with
  | literal content typeName expected =>
    rw [toJson_eq]
    refine ⟨trivial, numberFree_present fun v hv j hj => ?_⟩
    simp only [valuesOf, List.mem_cons, List.not_mem_nil, or_false] at hv
    rcases hv with rfl | rfl | rfl <;> exact hstring _ j hj
  | @value text expected functions vars ordered each ih =>
    rw [toJson_eq]
    refine ⟨trivial, numberFree_present fun v hv j hj => ?_⟩
    simp only [valuesOf, List.mem_cons, List.not_mem_nil, or_false] at hv
    rcases hv with rfl | rfl | rfl | rfl
    · exact hstring (some text) j hj
    · exact hstring expected j hj
    · exact hfunctions functions j hj
    · exact hvariables ih j hj
  | @method text returns params functions vars ordered each ih =>
    rw [toJson_eq]
    refine ⟨trivial, numberFree_present fun v hv j hj => ?_⟩
    simp only [valuesOf, List.mem_cons, List.not_mem_nil, or_false] at hv
    rcases hv with rfl | rfl | rfl | rfl | rfl
    · exact hstring (some text) j hj
    · exact hstring returns j hj
    · obtain ⟨ts, -, rfl⟩ := Option.map_eq_some_iff.mp hj
      exact Json.itemsNumberFree_strings ts
    · exact hfunctions functions j hj
    · exact hvariables ih j hj

/-- A form whose variables are in order is read back from what is written for it. -/
theorem ofJson?_toJson {f : Form} (hf : f.Sorted) : ofJson? f.toJson = some f :=
  ofJsonAt_toJson hf false (Nat.lt_succ_self _)

/-- If it nests no deeper than readers go, it is read back from its text. -/
theorem ofText_toText {f : Form} (hf : f.Sorted) (hdepth : f.toJson.depth ≤ Json.depthLimit) :
    ofText f.toText = .ok f := by
  have hjson : Json.ofText? f.toText = some f.toJson :=
    Json.ofText?_render (numberFree_toJson hf) hdepth
  rw [ofText, hjson, Option.bind_some, ofJson?_toJson hf]

end Form

end ExprLang
