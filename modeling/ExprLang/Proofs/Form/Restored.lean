import ExprLang.Proofs.Factory
import ExprLang.Proofs.Evaluation.Capture
import ExprLang.Proofs.Form.Json
import ExprLang.Proofs.Form.Literal
import ExprLang.Proofs.Parser.Names
import ExprLang.Proofs.Action
import ExprLang.Proofs.Template
import ExprLang.Proofs.Parser.Depth

/-! An expression that a factory built, or that stands for a value of the host, is restored from its
form as it was. -/

namespace ExprLang

variable {t : ClassTable} {r : Registry}

/-! ## What a tree takes with it -/

namespace Bound

/-- The names are in order, and functions are bound under their prefixes and names, each to a method
that there is. -/
structure Keyed (t : ClassTable) (b : Bound) : Prop where
  functions : b.functions.Ordered
  vars : b.vars.Ordered
  keys (key : String) (id : MethodId) : (key, id) ∈ b.functions →
    (t.method? id).isSome = true ∧
      ∃ ns name, key = functionKey ns name ∧ Unmarked ns ∧ Unmarked name

variable {source b c : Bound} {n : Node} {ps : List Node}

theorem keyed_empty : Keyed t empty := ⟨List.Pairwise.nil, List.Pairwise.nil, nofun⟩

theorem Keyed.addVariable (h : b.Keyed t) (name : String) : (addVariable source b name).Keyed t := by
  unfold Bound.addVariable
  split
  · exact ⟨h.functions, h.vars.insert name _, h.keys⟩
  · exact h

theorem Keyed.captureNode (h : b.Keyed t) (hn : n.Unmarked)
    (hc : captureNode t source b n = .ok c) : c.Keyed t := by
  unfold Bound.captureNode at hc
  split at hc
  · next name =>
    cases hc
    exact h.addVariable name
  · next ns name calls =>
    dsimp only at hc
    split at hc
    · next id m hid hm =>
      obtain ⟨_, _, hc⟩ := ok_of_bind hc
      cases hc
      refine ⟨h.functions.insert _ id, h.vars, fun key id' hmem => ?_⟩
      rcases Bindings.mem_of_mem_insert hmem with heq | hmem
      · cases heq
        refine ⟨?_, ns, name, rfl, hn.1, hn.2⟩
        rw [method?, hid, Option.bind_some] at hm
        rw [hm]
        rfl
      · exact h.keys key id' hmem
    · split at hc
      · cases hc
        exact h.addVariable name
      · cases hc
  · cases hc
    exact h

/-- The bindings that a tree without colons in its names takes with it are keyed. -/
theorem keyed_capture (hn : ∀ p ∈ n.parts, p.Unmarked) (h : capture t source n = .ok b) :
    b.Keyed t := by
  suffices hfold : ∀ ps : List Node, (∀ p ∈ ps, p.Unmarked) → ∀ a : Bound, a.Keyed t →
      ps.foldlM (Bound.captureNode t source) a = .ok b → b.Keyed t from
    hfold n.parts hn empty keyed_empty h
  intro ps hps
  induction ps with
  | nil =>
    intro a ha hb
    cases hb
    exact ha
  | cons p ps ih =>
    intro a ha hb
    rw [List.foldlM_cons] at hb
    obtain ⟨a', hp, hb⟩ := ok_of_bind hb
    exact ih (fun q hq => hps q (List.mem_cons_of_mem p hq)) a'
      (ha.captureNode (hps p List.mem_cons_self) hp) hb

end Bound

/-! ## Looking methods up again -/

/-- The type is found by its own name. -/
def Registry.Knows (r : Registry) (l : Lineage) (type : TypeRef) : Prop :=
  r.resolveType l (l.typeName type) = some type

/-- Types that are found by their names have different names. -/
theorem Registry.eq_of_typeNames {l : Lineage} {ps qs : List TypeRef}
    (hp : ∀ p ∈ ps, r.Knows l p) (hq : ∀ q ∈ qs, r.Knows l q)
    (h : ps.map l.typeName = qs.map l.typeName) : ps = qs := by
  induction ps generalizing qs with
  | nil =>
    rw [List.map_nil, eq_comm, List.map_eq_nil_iff] at h
    exact h.symm
  | cons p ps ih =>
    cases qs with
    | nil => cases h
    | cons q qs =>
      obtain ⟨hhead, htail⟩ := List.cons.inj h
      have hfirst := hp p List.mem_cons_self
      have hfirst' := hq q List.mem_cons_self
      unfold Registry.Knows at hfirst hfirst'
      rw [hhead, hfirst'] at hfirst
      rw [Option.some.inj hfirst, ih (fun x hx => hp x (List.mem_cons_of_mem p hx))
        (fun x hx => hq x (List.mem_cons_of_mem q hx)) htail]

/-- The method of a binding can be looked up again: its class is found by its name and lists it, and
the types of all methods of its name there are found by their names. -/
structure MethodId.Retrievable (t : ClassTable) (r : Registry) (id : MethodId) : Prop where
  owner : r.resolve (t.lineage.name id.owner) = some id.owner
  listed (m : Method) : t.method? id = some m → m ∈ t.allMethods id.owner
  types (m n : Method) : t.method? id = some m → n ∈ t.allMethods id.owner → n.name = m.name →
    ∀ p ∈ n.params, r.Knows t.lineage p

namespace Form
variable {h : Heap}

/-- The method that a form of a function names is the one that the form was made from. -/
theorem toMethod_eq (hplaced : t.Placed) {id : MethodId} {m : Method} (hm : t.method? id = some m)
    (hid : id.Retrievable t r) (ns name : String) :
    toMethod t r ⟨ns, name, m.owner t.lineage, m.name, m.params.map t.lineage.typeName⟩ = .ok m := by
  have howner : r.resolve (m.owner t.lineage) = some id.owner := by
    rw [Method.owner, hplaced id m hm]
    exact hid.owner
  have hmem := hid.listed m hm
  have hfound : (t.allMethods id.owner).find? (fun n => n.name == m.name &&
      n.params.map t.lineage.typeName == m.params.map t.lineage.typeName) = some m := by
    cases hf : (t.allMethods id.owner).find? (fun n => n.name == m.name &&
      n.params.map t.lineage.typeName == m.params.map t.lineage.typeName) with
    | none =>
      have hself := List.find?_eq_none.mp hf m hmem
      simp at hself
    | some n =>
      have hnmem := List.mem_of_find?_eq_some hf
      obtain ⟨hname, hparams⟩ : n.name = m.name ∧
          n.params.map t.lineage.typeName = m.params.map t.lineage.typeName := by
        simpa using List.find?_some hf
      have hsame : n.params = m.params :=
        Registry.eq_of_typeNames (hid.types m n hm hnmem hname) (hid.types m m hm hmem rfl) hparams
      have honly := t.pairwise_allMethods id.owner
      refine congrArg some (Method.eq_of_sameSignature honly hnmem hmem ?_)
      simp [Method.sameSignature, hname, hsame]
  unfold toMethod
  rw [howner]
  dsimp only
  rw [hfound]

/-- The functions of an expression are restored from their forms. -/
theorem toFunctions_ofFunctions (hplaced : t.Placed) {b : Bound} (hb : b.Keyed t)
    (hids : ∀ p ∈ b.functions, p.2.Retrievable t r) :
    toFunctions t r (ofFunctions t b.functions) = .ok b.functions := by
  suffices hfold : ∀ (fs acc : Bindings MethodId), (∀ p ∈ fs, p ∈ b.functions) →
      (ofFunctions t fs).foldlM (fun b f => do
        let m ← toMethod t r f
        pure (b.insert (Bound.functionKey f.ns f.name) m.id)) acc =
        (.ok (acc.override fs) : Except Fault (Bindings MethodId)) by
    have hall := hfold b.functions [] fun _ hp => hp
    exact hall.trans (congrArg Except.ok (Bindings.override_append (b := []) hb.functions))
  intro fs
  induction fs with
  | nil => exact fun acc _ => rfl
  | cons p fs ih =>
    intro acc hfs
    obtain ⟨key, id⟩ := p
    have hp := hfs (key, id) List.mem_cons_self
    obtain ⟨hsome, ns, name, hkey, hns, hname⟩ := hb.keys key id hp
    obtain ⟨m, hm⟩ := Option.isSome_iff_exists.mp hsome
    have hform : ofFunctions t ((key, id) :: fs) =
        ⟨ns, name, m.owner t.lineage, m.name, m.params.map t.lineage.typeName⟩ ::
          ofFunctions t fs := by
      unfold ofFunctions
      rw [List.filterMap_cons]
      dsimp only
      rw [hm, hkey, splitKey_functionKey hns hname]
      rfl
    have hmethod := toMethod_eq hplaced hm (hids _ hp) ns name
    rw [hform, List.foldlM_cons, hmethod]
    dsimp only
    rw [← hkey]
    show List.foldlM _ (acc.insert key m.id) _ = _
    rw [hplaced id m hm]
    exact ih (acc.insert key id) fun q hq => hfs q (List.mem_cons_of_mem _ hq)

end Form

/-! ## Restoring -/

/-- An expression that can be put apart from its context and restored. It was built by a factory, its
variables are such expressions again, its functions can be looked up again and the wanted type is
found by its name; or it stands for a value that reads back from its text. -/
inductive ValueExpr.Portable (t : ClassTable) (r : Registry) : ValueExpr → Prop
  | built (c : Context) {f : Factory} (hf : f.Reached) (text : String) {expected : Option TypeRef}
      {e : ValueExpr} (he : (Factory.valueExpression t c text expected f).1 = .ok e)
      (hexpected : ∀ type ∈ expected, r.Knows t.lineage type)
      (hfunctions : ∀ b ∈ e.bound?, ∀ p ∈ b.functions, p.2.Retrievable t r)
      (hvars : ∀ b ∈ e.bound?, ∀ p ∈ b.vars, p.2.Portable t r) : Portable t r e
  | literal {v : Value} (hv : v.Legible) {expected : Option TypeRef}
      (hexpected : ∀ type ∈ expected, r.Knows t.lineage type) : Portable t r (.literal v expected)

namespace Form
variable {h : Heap}

theorem typeNamed?_typeName {expected : Option TypeRef}
    (hexpected : ∀ type ∈ expected, r.Knows t.lineage type) :
    typeNamed? t r (expected.map t.lineage.typeName) = .ok expected := by
  cases expected with
  | none => rfl
  | some type =>
    have hknown : r.resolveType t.lineage (t.lineage.typeName type) = some type :=
      hexpected type rfl
    simp only [typeNamed?, Option.map_some, Option.mapM_some, typeNamed, hknown]
    rfl

/-- The form is in order, and every factory restores the expression from it. -/
structure Stands (t : ClassTable) (r : Registry) (form : Form) (e : ValueExpr) : Prop where
  sorted : form.Sorted
  restored (f : Factory) : f.Reached → ∃ f', toValueExpr t r form f = (.ok e, f') ∧ f'.Reached

/-- Forms of variables stand for them under the same names. -/
def StandAll (t : ClassTable) (r : Registry) : List (String × Form) → Bindings ValueExpr → Prop :=
  List.Forall₂ fun p q => p.1 = q.1 ∧ Stands t r p.2 q.2

theorem ofVariables_standAll {vars : Bindings ValueExpr}
    (hvars : ∀ p ∈ vars, ∃ form, ofValueExpr t h p.2 = .ok form ∧ Stands t r form p.2) :
    ∃ forms, ofVariables t h vars = .ok forms ∧ StandAll t r forms vars := by
  induction vars with
  | nil => exact ⟨[], by rw [ofVariables], .nil⟩
  | cons p vars ih =>
    obtain ⟨name, e⟩ := p
    obtain ⟨form, hform, hstands⟩ := hvars (name, e) List.mem_cons_self
    obtain ⟨forms, hforms, hall⟩ := ih fun q hq => hvars q (List.mem_cons_of_mem _ hq)
    refine ⟨(name, form) :: forms, ?_, .cons ⟨rfl, hstands⟩ hall⟩
    rw [ofVariables, hform, hforms]
    rfl

theorem StandAll.names {forms : List (String × Form)} {vars : Bindings ValueExpr}
    (h : StandAll t r forms vars) : forms.map (·.1) = vars.map (·.1) := by
  induction h with
  | nil => rfl
  | cons hp _ ih => rw [List.map_cons, List.map_cons, hp.1, ih]

theorem StandAll.ordered {forms : List (String × Form)} {vars : Bindings ValueExpr}
    (h : StandAll t r forms vars) (hvars : vars.Ordered) : Bindings.Ordered forms := by
  have hnames := List.pairwise_map (f := fun p : String × ValueExpr => p.1) (R := (· < ·)) |>.mpr hvars
  rw [← h.names] at hnames
  exact List.pairwise_map.mp hnames

theorem StandAll.each {forms : List (String × Form)} {vars : Bindings ValueExpr}
    (h : StandAll t r forms vars) : ∀ p ∈ forms, p.2.Sorted := by
  induction h with
  | nil => exact nofun
  | cons hp _ ih => exact List.forall_mem_cons.mpr ⟨hp.2.sorted, ih⟩

/-- Variables are restored one after the other. -/
theorem StandAll.restored {forms : List (String × Form)} {vars : Bindings ValueExpr}
    (h : StandAll t r forms vars) (acc : Bindings ValueExpr) {f : Factory} (hf : f.Reached) :
    ∃ f', toVariables t r acc forms f = (.ok (acc.override vars), f') ∧ f'.Reached := by
  induction h generalizing acc f with
  | nil =>
    rw [toVariables]
    exact ⟨f, rfl, hf⟩
  | @cons p q forms vars hp _ ih =>
    obtain ⟨name, form⟩ := p
    obtain ⟨name', e⟩ := q
    obtain ⟨rfl, hstands⟩ := hp
    obtain ⟨f', hform, hf'⟩ := hstands.restored f hf
    rw [toVariables, Building.bind_of_ok hform]
    exact ih (acc.insert name e) hf'

theorem StandAll.restored_ordered {forms : List (String × Form)} {vars : Bindings ValueExpr}
    (h : StandAll t r forms vars) (hvars : vars.Ordered) (f : Factory) (hf : f.Reached) :
    ∃ f', toVariables t r [] forms f = (.ok vars, f') ∧ f'.Reached := by
  obtain ⟨f', hrestored, hf'⟩ := h.restored [] hf
  have hoverride : Bindings.override [] vars = vars := Bindings.override_append (b := []) hvars
  rw [hoverride] at hrestored
  exact ⟨f', hrestored, hf'⟩

theorem stands_of_portable (hplaced : t.Placed) (hl : h.lineage = t.lineage) {e : ValueExpr}
    (he : e.Portable t r) : ∃ form, ofValueExpr t h e = .ok form ∧ Stands t r form e := by
  induction he with
  | @literal v hv expected hexpected =>
    have hscalar : isScalar v = true := by cases hv <;> rfl
    refine ⟨.literal (contentOf h v) ((h.typeOf? v).map h.lineage.typeName)
      (expected.map h.lineage.typeName), by rw [ofValueExpr, ofLiteral, if_pos hscalar]; rfl,
      .literal _ _ _, fun f hf => ?_⟩
    have hliteral := toLiteral_display t r h hv hl
    have htype := typeNamed?_typeName hexpected
    rw [← hl] at htype
    rw [toValueExpr, Building.bind_of_ok (Building.ofExcept_ok hliteral f),
      Building.bind_of_ok (Building.ofExcept_ok htype f)]
    exact ⟨f, rfl, hf⟩
  | @built c f₀ hf₀ text expected e he hexpected hfunctions hvars ih =>
    obtain ⟨n, b, hn, hb, rfl⟩ := Factory.valueExpression_spec hf₀ he
    have hkeyed := Bound.keyed_capture (unmarked_parseTemplate hn) hb
    obtain ⟨forms, hforms, hall⟩ := ofVariables_standAll (h := h) (ih b rfl)
    have hrestoredFunctions := toFunctions_ofFunctions hplaced hkeyed (hfunctions _ rfl)
    have hrestoredVars := hall.restored_ordered hkeyed.vars
    obtain ⟨functions, vars⟩ := b
    dsimp only [Bound.vars, Bound.functions] at hforms hall hrestoredVars hrestoredFunctions
    refine ⟨.value text (expected.map t.lineage.typeName) (ofFunctions t functions) forms,
      by rw [ofValueExpr, hforms]; rfl,
      .value _ _ _ (hall.ordered hkeyed.vars) hall.each, fun f hf => ?_⟩
    obtain ⟨f', hparse, hf'⟩ := hf.parse_ok hn
    obtain ⟨f'', hrestored, hf''⟩ := hrestoredVars f' hf'
    have htype := typeNamed?_typeName hexpected
    rw [toValueExpr, Building.bind_of_ok hparse,
      Building.bind_of_ok (Building.ofExcept_ok htype f'),
      Building.bind_of_ok (Building.ofExcept_ok hrestoredFunctions f'),
      Building.bind_of_ok hrestored]
    exact ⟨f'', rfl, hf''⟩

/-- A portable expression has a form. The form is read back from what is written for it, also as a
text where it nests no deeper than readers go, and every factory restores the expression from it as
it was. -/
theorem portable_restored (hplaced : t.Placed) (hl : h.lineage = t.lineage) {e : ValueExpr}
    (he : e.Portable t r) :
    ∃ form, ofValueExpr t h e = .ok form ∧ ofJson? form.toJson = some form ∧
      (form.toJson.depth ≤ Json.depthLimit → ofText form.toText = .ok form) ∧
      ∀ f : Factory, f.Reached → ∃ f', toValueExpr t r form f = (.ok e, f') := by
  obtain ⟨form, hform, hstands⟩ := stands_of_portable hplaced hl he
  refine ⟨form, hform, ofJson?_toJson hstands.sorted, ofText_toText hstands.sorted, fun f hf => ?_⟩
  obtain ⟨f', hrestored, -⟩ := hstands.restored f hf
  exact ⟨f', hrestored⟩

/-! ### A call of a function with a variable -/

/-- The first method of the name `max` of the builtin class of mathematical functions. -/
def maxId : MethodId := ⟨.builtin .math, false, 3⟩

/-- A context with one function and one variable. -/
def maxContext : Context :=
  { Context.standard false true with
    functions := [("m:max", maxId)], vars := [("x", .literal (.long 5) none)] }

theorem parse_maxCall :
    parseTemplate "$\x7bm:max(x, 2)\x7d" = .ok (.call "m" "max" [[.name "x", .integer "2"]]) :=
  parseTemplate_segment .dynamic "m:max(x, 2)" (parseExpression_of_toOption (by decide +kernel))

theorem placed_bare : Host.bare.classes.Placed :=
  ClassTable.placed_ofHost fun n c hc => by
    rw [Array.getElem?_empty] at hc
    cases hc

theorem bare_math_ancestors :
    Host.bare.classes.lineage.ancestors (.builtin .math) = [.builtin .math, .builtin .object] :=
  Lineage.ancestors_below_object rfl

theorem bare_math_params {m : Method}
    (hm : m ∈ Host.bare.classes.allMethods (.builtin .math)) : ∀ p ∈ m.params, p ∈ TypeRef.plain := by
  have hplain : ∀ m ∈ Builtin.math.members.methods ++ Builtin.object.members.methods,
      ∀ p ∈ m.params, p ∈ TypeRef.plain := by decide +kernel
  refine hplain m ?_
  rw [ClassTable.allMethods, ClassTable.defaultMethods, Lineage.allInterfaces_builtin,
    ClassTable.classMethods, bare_math_ancestors] at hm
  rcases List.mem_append.mp hm with hm | hm
  · have hmem := (List.mem_filter.mp (ClassTable.mem_of_mem_unhidden hm)).1
    simpa [Host.bare, ClassTable.ofHost] using hmem
  · cases hm

theorem maxId_retrievable : maxId.Retrievable Host.bare.classes .builtins where
  owner := by decide +kernel
  listed m hm := by
    refine List.mem_append_left _ ?_
    show m ∈ Host.bare.classes.classMethods (.builtin .math)
    rw [ClassTable.classMethods, bare_math_ancestors]
    cases hm
    exact List.mem_of_getElem? (i := 3) rfl
  types m n _ hn _ p hp :=
    Registry.resolveType_plain .builtins Host.bare.classes.lineage (bare_math_params hn p hp)

theorem maxCall_restored : ∃ e form,
    (Factory.valueExpression Host.bare.classes maxContext "$\x7bm:max(x, 2)\x7d"
        (some (.primitive .int)) (Factory.ofCapacity 1)).1 = .ok e ∧
      ofValueExpr Host.bare.classes (World.fresh .bare .none).heap e = .ok form ∧
      ofText form.toText = .ok form ∧
      ∃ f, toValueExpr Host.bare.classes .builtins form (Factory.ofCapacity 0) = (.ok e, f) := by
  obtain ⟨f, hf, -⟩ := (Factory.Reached.start 1).parse_ok parse_maxCall
  have he : (Factory.valueExpression Host.bare.classes maxContext "$\x7bm:max(x, 2)\x7d"
      (some (.primitive .int)) (Factory.ofCapacity 1)).1 =
      .ok (.parsed "$\x7bm:max(x, 2)\x7d" (.call "m" "max" [[.name "x", .integer "2"]])
        (.mk [("m:max", maxId)] [("x", .literal (.long 5) none)]) (some (.primitive .int))) := by
    rw [Factory.valueExpression, Building.bind_of_ok hf]
    rfl
  have hint : ∀ type ∈ some (TypeRef.primitive .int),
      Registry.builtins.Knows Host.bare.classes.lineage type := by
    rintro _ ⟨⟩
    exact Registry.resolveType_plain .builtins Host.bare.classes.lineage (by decide)
  have hfunctions : ∀ p ∈ [("m:max", maxId)], p.2.Retrievable Host.bare.classes .builtins := by
    rintro p hp
    rw [List.mem_singleton.mp hp]
    exact maxId_retrievable
  have hvars : ∀ p ∈ [("x", ValueExpr.literal (.long 5) none)],
      p.2.Portable Host.bare.classes .builtins := by
    rintro p hp
    rw [List.mem_singleton.mp hp]
    exact .literal (.long 5) fun _ h => by cases h
  have hportable := ValueExpr.Portable.built maxContext (.start 1) _ he hint
    (by rintro _ ⟨⟩; exact hfunctions) (by rintro _ ⟨⟩; exact hvars)
  obtain ⟨form, hform, -, htext, hrestored⟩ :=
    portable_restored (h := (World.fresh .bare .none).heap) placed_bare rfl hportable
  refine ⟨_, form, he, hform, htext ?_, hrestored _ (.start 0)⟩
  cases hform
  decide +kernel

end Form

end ExprLang
