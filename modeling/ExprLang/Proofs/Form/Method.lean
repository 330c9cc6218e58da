import ExprLang.Proofs.Form.Restored

/-! A method expression is restored from its form as it was, unless it is plain text in which a marker
stands: what was written as an escaped marker is put into the form as the marker itself. -/

namespace ExprLang

namespace Template

variable {c : Char} {cs rest : List Char}

theorem length_head {m : Marker} (h : head c rest = .escaped m cs) : rest.length = cs.length + 2 := by
  unfold head at h
  split at h <;> cases h <;> rfl

theorem head_eq_letter {d : Char} (h : head c rest = .letter d cs) :
    d = c ∧ cs = rest ∧ opens (c :: rest) = false := by
  unfold head at h
  split at h
  · cases h
  · cases h
  · cases h
  · cases h
  · next hdynamic hdeferred =>
    cases h
    refine ⟨rfl, rfl, Bool.eq_false_iff.mpr fun hopens => ?_⟩
    unfold opens at hopens
    split at hopens
    · next heq => cases heq; exact hdynamic _ rfl rfl
    · next heq => cases heq; exact hdeferred _ rfl rfl
    · cases hopens

/-- What is read as plain text is no longer than it was written, and shorter where a marker stood. -/
theorem partsFrom_length {offset : Nat} {literal : List Char} {parts : List Node}
    (h : partsFrom offset literal cs = .ok parts) (hplain : ∀ n ∈ parts, marker? n = none) :
    ∃ read, parts = flush read [] ∧ read.length ≤ literal.length + cs.length ∧
      (marked cs = true → read.length < literal.length + cs.length) := by
  fun_induction partsFrom offset literal cs generalizing parts with
  | case1 offset literal =>
    cases h
    exact ⟨literal, rfl, Nat.le_refl _, fun hmarked => absurd hmarked Bool.false_ne_true⟩
  | case2 offset literal c rest m rest' hhead ih =>
    obtain ⟨read, hparts, hle, -⟩ := ih h hplain
    have hlength := length_head hhead
    have hspelling : (m.spelling.reverse ++ literal).length = literal.length + 2 := by
      cases m <;> rfl
    simp only [List.length_cons]
    exact ⟨read, hparts, by omega, fun _ => by omega⟩
  | case3 offset literal c rest d rest' hhead ih =>
    obtain ⟨read, hparts, hle, hlt⟩ := ih h hplain
    obtain ⟨rfl, rfl, hopens⟩ := head_eq_letter hhead
    simp only [List.length_cons] at hle hlt ⊢
    refine ⟨read, hparts, by omega, fun hmarked => ?_⟩
    rw [marked, hopens, Bool.false_or] at hmarked
    have := hlt hmarked
    omega
  | case4 => cases h
  | case5 => cases h
  | case6 => cases h
  | case7 offset literal c rest m rest' hhead segment hsegment node hnode parts' hparts ih =>
    cases h
    have hsegment : m.wrap node ∈ flush literal (m.wrap node :: parts') := by
      unfold flush
      split <;> simp
    have := hplain _ hsegment
    cases m <;> cases this

/-- A text is plain where it has no parts, or where its only part is. -/
theorem parts_of_assemble {offset stop : Nat} {literal : List Char} {parts : List Node} {text : String}
    (hparts : partsFrom offset literal cs = .ok parts)
    (h : assemble stop parts = .ok (.plain text)) :
    parts = [] ∧ text = "" ∨ parts = [.plain text] := by
  rcases assemble_cases h with ⟨rfl, hempty⟩ | ⟨m, rfl⟩ | ⟨rfl, -⟩ | ⟨-, -, htemplate⟩
  · cases hempty
    exact .inl ⟨rfl, rfl⟩
  · exact (wellFormed_of_segment hparts List.mem_cons_self).elim
  · exact .inr rfl
  · cases htemplate

/-- A text stands for itself where it has no markers. -/
theorem parseTemplate_plain_iff {text : String} :
    parseTemplate text = .ok (.plain text) ↔ marked text.toList = false := by
  constructor
  · intro h
    unfold parseTemplate at h
    split at h
    · next parts hparts =>
      obtain ⟨-, rfl⟩ | rfl := parts_of_assemble hparts h
      · rfl
      · have hplain : ∀ n ∈ [Node.plain text], marker? n = none := by
          intro n hn
          rw [List.mem_singleton.mp hn]
          rfl
        obtain ⟨read, hread, -, hlt⟩ := partsFrom_length hparts hplain
        have htext : text = String.ofList read.reverse := by
          unfold flush at hread
          split at hread <;> cases hread
          rfl
        have hlength : text.toList.length = read.length := by
          rw [htext, String.toList_ofList, List.length_reverse]
        rw [List.length_nil, Nat.zero_add, hlength] at hlt
        exact Bool.eq_false_iff.mpr fun hmarked => Nat.lt_irrefl _ (hlt hmarked)
    · cases h
  · intro h
    rw [parseTemplate, partsFrom_of_unmarked h, List.append_nil]
    by_cases hempty : text = ""
    · rw [hempty]
      rfl
    · rw [flush_literal hempty]
      rfl

end Template

variable {t : ClassTable} {r : Registry}

/-- A method expression that can be put apart from its context: a factory built it, the types it asks
for are found by their names, and what it took from its context can be put apart too. -/
inductive MethodExpr.Portable (t : ClassTable) (r : Registry) : MethodExpr → Prop
  | built (c : Context) {f : Factory} (hf : f.Reached) (text : String) {returns : Option TypeRef}
      {params : Option (List TypeRef)} {m : MethodExpr}
      (hm : (Factory.methodExpression t c text returns params f).1 = .ok m)
      (hreturns : ∀ type ∈ returns, r.Knows t.lineage type)
      (hparams : ∀ types ∈ params, ∀ type ∈ types, r.Knows t.lineage type)
      (hfunctions : ∀ b ∈ m.bound?, ∀ p ∈ b.functions, p.2.Retrievable t r)
      (hvars : ∀ b ∈ m.bound?, ∀ p ∈ b.vars, p.2.Portable t r) : Portable t r m

/-- The expression has a tree, or its text stands for itself. -/
def MethodExpr.Faithful (m : MethodExpr) : Prop :=
  m.isPlain = true → Template.marked m.text.toList = false

namespace Form
variable {h : Heap}

theorem mapM_typeNamed {types : List TypeRef} (h : ∀ type ∈ types, r.Knows t.lineage type) :
    (types.map t.lineage.typeName).mapM (typeNamed t r) = .ok types := by
  induction types with
  | nil => rfl
  | cons type types ih =>
    have htype : typeNamed t r (t.lineage.typeName type) = .ok type := by
      have hknown : r.resolveType t.lineage (t.lineage.typeName type) = some type :=
        h type List.mem_cons_self
      rw [typeNamed, hknown]
    rw [List.map_cons, List.mapM_cons, htype,
      ih fun type htype => h type (List.mem_cons_of_mem _ htype)]
    rfl

theorem typesNamed?_typeName {params : Option (List TypeRef)}
    (h : ∀ types ∈ params, ∀ type ∈ types, r.Knows t.lineage type) :
    (params.map (·.map t.lineage.typeName)).mapM (·.mapM (typeNamed t r)) = .ok params := by
  cases params with
  | none => rfl
  | some types =>
    rw [Option.map_some, Option.mapM_some, mapM_typeNamed (h types rfl)]
    rfl

/-- Plain text is restored only from a text that is read as it. -/
theorem toMethodExpr_plain {f f' : Factory} (hf : f.Reached) {text : String}
    {returnsName : Option String} {paramNames : Option (List String)} {returns : Option TypeRef}
    {params : Option (List TypeRef)} {functions : List FunctionForm} {vars : List (String × Form)}
    {m : MethodExpr} (hreturns : typeNamed? t r returnsName = .ok returns)
    (hparams : paramNames.mapM (·.mapM (typeNamed t r)) = .ok params)
    (h : toMethodExpr t r (.method text returnsName paramNames functions vars) f = (.ok m, f'))
    (hm : m.isPlain = true) :
    ∃ content, parseTemplate text = .ok (.plain content) ∧ m = .plain content returns params := by
  rw [toMethodExpr, Building.bind_of_ok (Building.ofExcept_ok hreturns f),
    Building.bind_of_ok (Building.ofExcept_ok hparams f)] at h
  obtain ⟨n, f₁, hn, h⟩ := Building.of_bind h
  split at h
  · next content =>
    cases h
    refine ⟨content, ?_, rfl⟩
    have hread := hf.parse_eq text
    rw [hn] at hread
    cases hp : parseTemplate text with
    | ok n =>
      rw [hp] at hread
      cases hread
      rfl
    | error e =>
      rw [hp] at hread
      cases hread
  · obtain ⟨_, f₂, -, h⟩ := Building.of_bind h
    obtain ⟨_, f₃, -, h⟩ := Building.of_bind h
    cases h
    cases hm

/-- The form is in order. Every factory restores the expression from it exactly where it is faithful,
and else nothing equal to it. -/
structure StandsFor (t : ClassTable) (r : Registry) (form : Form) (m : MethodExpr) : Prop where
  sorted : form.Sorted
  restored (f : Factory) : f.Reached →
    ((∃ f', toMethodExpr t r form f = (.ok m, f')) ↔ m.Faithful)
  unique (f : Factory) : f.Reached → ∀ m' f', toMethodExpr t r form f = (.ok m', f') →
    m.same m' = true → m' = m

/-- Plain text is what is read back where that is the text itself. -/
theorem plain_standsFor {content : String} {returnsName : Option String}
    {paramNames : Option (List String)} {returns : Option TypeRef} {params : Option (List TypeRef)}
    (hreturns : typeNamed? t r returnsName = .ok returns)
    (hparams : paramNames.mapM (·.mapM (typeNamed t r)) = .ok params) :
    StandsFor t r (.method content returnsName paramNames [] []) (.plain content returns params) where
  sorted := .method _ _ _ _ List.Pairwise.nil nofun
  restored f hf := by
    constructor
    · rintro ⟨f', hrestored⟩ -
      obtain ⟨_, hread, ⟨⟩⟩ := toMethodExpr_plain hf hreturns hparams hrestored rfl
      exact Template.parseTemplate_plain_iff.mp hread
    · intro hfaithful
      have hread : parseTemplate content = .ok (.plain content) :=
        Template.parseTemplate_plain_iff.mpr (hfaithful rfl)
      obtain ⟨f', hparse, -⟩ := hf.parse_ok hread
      refine ⟨f', ?_⟩
      rw [toMethodExpr, Building.bind_of_ok (Building.ofExcept_ok hreturns f),
        Building.bind_of_ok (Building.ofExcept_ok hparams f), Building.bind_of_ok hparse]
      rfl
  unique f hf m' f' hrestored hsame := by
    have hplain : m'.isPlain = true := by
      cases m' with
      | parsed => cases hsame
      | plain => rfl
    obtain ⟨content', -, rfl⟩ := toMethodExpr_plain hf hreturns hparams hrestored hplain
    simp only [MethodExpr.same, Bool.and_eq_true, beq_iff_eq] at hsame
    rw [hsame.1]

/-- An expression with a tree is read back with the tree and all that it took from its context. -/
theorem parsed_standsFor {text : String} {n : Node} {b : Bound} {returnsName : Option String}
    {paramNames : Option (List String)} {returns : Option TypeRef} {params : Option (List TypeRef)}
    {functions : List FunctionForm} {forms : List (String × Form)}
    (hn : parseTemplate text = .ok n) (hplain : ∀ content, n ≠ .plain content)
    (hreturns : typeNamed? t r returnsName = .ok returns)
    (hparams : paramNames.mapM (·.mapM (typeNamed t r)) = .ok params)
    (hfunctions : toFunctions t r functions = .ok b.functions)
    (hall : StandAll t r forms b.vars) (hvars : b.vars.Ordered) :
    StandsFor t r (.method text returnsName paramNames functions forms)
      (.parsed text n b returns params) := by
  have hrestored (f : Factory) (hf : f.Reached) :
      ∃ f', toMethodExpr t r (.method text returnsName paramNames functions forms) f =
        (.ok (.parsed text n b returns params), f') := by
    obtain ⟨f', hparse, hf'⟩ := hf.parse_ok hn
    obtain ⟨f'', hvarsRead, -⟩ := hall.restored_ordered hvars f' hf'
    refine ⟨f'', ?_⟩
    rw [toMethodExpr, Building.bind_of_ok (Building.ofExcept_ok hreturns f),
      Building.bind_of_ok (Building.ofExcept_ok hparams f), Building.bind_of_ok hparse]
    split
    · next content => exact (hplain content rfl).elim
    · rw [Building.bind_of_ok (Building.ofExcept_ok hfunctions f'), Building.bind_of_ok hvarsRead]
      obtain ⟨_, _⟩ := b
      rfl
  refine ⟨.method _ _ _ _ (hall.ordered hvars) hall.each,
    fun f hf => ⟨fun _ => nofun, fun _ => hrestored f hf⟩, fun f hf m' f' hm' _ => ?_⟩
  obtain ⟨f'', hm''⟩ := hrestored f hf
  rw [hm''] at hm'
  cases hm'
  rfl

/-- A portable method expression has a form, which is read back from what is written for it. It is
restored from the form as it was exactly where it is faithful, and else nothing equal to it is. -/
theorem method_restored_iff (hplaced : t.Placed) (hl : h.lineage = t.lineage) {m : MethodExpr}
    (hm : m.Portable t r) :
    ∃ form, ofMethodExpr t h m = .ok form ∧ ofJson? form.toJson = some form ∧
      (form.toJson.depth ≤ Json.depthLimit → ofText form.toText = .ok form) ∧
      ∀ f : Factory, f.Reached →
        ((∃ f', toMethodExpr t r form f = (.ok m, f')) ↔ m.Faithful) ∧
          ∀ m' f', toMethodExpr t r form f = (.ok m', f') → m.same m' = true → m' = m := by
  suffices hform : ∃ form, ofMethodExpr t h m = .ok form ∧ StandsFor t r form m by
    obtain ⟨form, hform, hstands⟩ := hform
    exact ⟨form, hform, ofJson?_toJson hstands.sorted, ofText_toText hstands.sorted,
      fun f hf => ⟨hstands.restored f hf, hstands.unique f hf⟩⟩
  cases hm with
  | @built c f₀ hf₀ text returns params _ hbuilt hreturns hparams hfunctions hvars =>
    have hreturnsRead := typeNamed?_typeName hreturns
    have hparamsRead := typesNamed?_typeName hparams
    obtain ⟨content, hn, rfl⟩ | ⟨n, b, hn, hplain, hb, rfl⟩ :=
      Factory.methodExpression_spec hf₀ hbuilt
    · exact ⟨_, rfl, plain_standsFor hreturnsRead hparamsRead⟩
    · have hkeyed := Bound.keyed_capture (unmarked_parseTemplate hn) hb
      obtain ⟨forms, hforms, hall⟩ := ofVariables_standAll (h := h) fun p hp =>
        stands_of_portable hplaced hl (hvars b rfl p hp)
      have hfunctionsRead := toFunctions_ofFunctions hplaced hkeyed (hfunctions b rfl)
      refine ⟨_, ?_, parsed_standsFor hn hplain hreturnsRead hparamsRead hfunctionsRead hall
        hkeyed.vars⟩
      show ofVariables t h b.vars >>= _ = _
      rw [hforms]
      rfl

/-- An expression with a tree, for which a variable is taken along. -/
theorem path_restored : ∃ m form,
    (Factory.methodExpression Host.bare.classes maxContext "$\x7bx.go\x7d" (some .string)
        (some [.primitive .int]) (Factory.ofCapacity 1)).1 = .ok m ∧
      ofMethodExpr Host.bare.classes (World.fresh .bare .none).heap m = .ok form ∧
      ofText form.toText = .ok form ∧
      ∃ f, toMethodExpr Host.bare.classes .builtins form (Factory.ofCapacity 0) = (.ok m, f) := by
  have hread : parseTemplate "$\x7bx.go\x7d" =
      .ok (.path (.name "x") [.mk (.field "go") none]) :=
    parseTemplate_segment .dynamic "x.go" (parseExpression_of_toOption (by decide +kernel))
  obtain ⟨f, hf, -⟩ := (Factory.Reached.start 1).parse_ok hread
  have hm : (Factory.methodExpression Host.bare.classes maxContext "$\x7bx.go\x7d" (some .string)
      (some [.primitive .int]) (Factory.ofCapacity 1)).1 =
      .ok (.parsed "$\x7bx.go\x7d" (.path (.name "x") [.mk (.field "go") none])
        (.mk [] [("x", .literal (.long 5) none)]) (some .string) (some [.primitive .int])) := by
    rw [Factory.methodExpression, Building.bind_of_ok hf]
    rfl
  have hknown {type : TypeRef} (htype : type ∈ TypeRef.plain) :
      Registry.builtins.Knows Host.bare.classes.lineage type :=
    Registry.resolveType_plain .builtins Host.bare.classes.lineage htype
  have hvars : ∀ p ∈ [("x", ValueExpr.literal (.long 5) none)],
      p.2.Portable Host.bare.classes .builtins := by
    intro p hp
    rw [List.mem_singleton.mp hp]
    exact .literal (.long 5) fun _ h => by cases h
  have hportable : MethodExpr.Portable Host.bare.classes .builtins _ :=
    .built maxContext (.start 1) _ hm
      (by rintro _ ⟨⟩; exact hknown (by decide))
      (by
        rintro _ ⟨⟩ type htype
        rw [List.mem_singleton.mp htype]
        exact hknown (by decide))
      (by rintro _ ⟨⟩; exact fun _ hp => absurd hp List.not_mem_nil) (by rintro _ ⟨⟩; exact hvars)
  obtain ⟨form, hform, -, htext, hrestored⟩ :=
    method_restored_iff (h := (World.fresh .bare .none).heap) placed_bare rfl hportable
  refine ⟨_, form, hm, hform, htext ?_, (hrestored _ (.start 0)).1.mpr ?_⟩
  · cases hform
    decide +kernel
  · intro hplain
    cases hplain

/-- A marker that was escaped is written as a marker, and read back as a segment. -/
theorem escaped_marker_lost : ∃ m form m' f,
    (Factory.methodExpression Host.bare.classes maxContext "\\$\x7ba\x7d" none none
        (Factory.ofCapacity 1)).1 = .ok m ∧
      ofMethodExpr Host.bare.classes (World.fresh .bare .none).heap m = .ok form ∧
      toMethodExpr Host.bare.classes .builtins form (Factory.ofCapacity 0) = (.ok m', f) ∧
      m.isPlain = true ∧ m'.isPlain = false ∧ m.same m' = false := by
  have htext : String.ofList (Template.escape "$\x7ba\x7d".toList) = "\\$\x7ba\x7d" := by
    decide +kernel
  have hne : "$\x7ba\x7d" ≠ "" := by decide
  have hbuilt := Template.parseTemplate_escape hne
  rw [htext] at hbuilt
  have hread : parseTemplate "$\x7ba\x7d" = .ok (.name "a") :=
    parseTemplate_segment .dynamic "a" (parseExpression_of_toOption (by decide +kernel))
  obtain ⟨f, hf, -⟩ := (Factory.Reached.start 1).parse_ok hbuilt
  obtain ⟨f', hf', -⟩ := (Factory.Reached.start 0).parse_ok hread
  refine ⟨.plain "$\x7ba\x7d" none none, .method "$\x7ba\x7d" none none [] [],
    .parsed "$\x7ba\x7d" (.name "a") .empty none none, f', ?_, rfl, ?_, rfl, rfl, rfl⟩
  · rw [Factory.methodExpression, Building.bind_of_ok hf]
    rfl
  · rw [toMethodExpr]
    show (Factory.parse "$\x7ba\x7d" >>= _) _ = _
    rw [Building.bind_of_ok hf']
    rfl

end Form

end ExprLang
