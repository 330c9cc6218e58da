import ExprLang.Proofs.Declared
import ExprLang.Proofs.Evaluation.Target
import ExprLang.Proofs.Resolution.Calls

/-! The description of a method against the call of it. A description looks among the static members of a
class and the methods of the value at once, a call only among the ones that claim it. -/

namespace ExprLang.Evaluation

open Resolution (staticCandidates candidates selected? afterClaim)

variable {host : Host} {handle : Handler} {ro : Bool} {depth : Nat} {b : Bound} {n : Node}
  {steps : List Step} {base property : Value} {name : String} {ts : List TypeRef}
  {args : List Value} {w u : World}

/-! ## What a path names -/

/-- The value before the last step of a path, and the property that the step selects. -/
def located (host : Host) (handle : Handler) (b : Bound) (n : Node) (steps : List Step) :
    Action (Value × Value) := do
  let (base, last) ← target host handle b n steps
  let property ← selected handle b last.selector
  pure (base, property)

theorem target_last {t : Value × Step} (h : target host handle b n steps w = .value t u) :
    steps.getLast? = some t.2 := by
  unfold target at h
  cases hlast : steps.getLast? with
  | none =>
    rw [hlast] at h
    cases h
  | some last =>
    rw [hlast] at h
    obtain ⟨v, _, -, hrest⟩ := Action.bind_eq_value.mp h
    dsimp only at hrest
    split at hrest
    · cases hrest
    · obtain ⟨_, _, -, ht⟩ := Action.bind_eq_value.mp hrest
      cases ht
      rfl

/-- A path without arguments of its own is described by what it names. -/
theorem info_located (hown : ∀ s, steps.getLast? = some s → s.args? = none)
    (types : Option (List TypeRef)) :
    info host handle b (.path n steps) types w =
      (located host handle b n steps >>= fun t => some <$> describeMethod host t.1 t.2 types) w := by
  rw [info, located]
  cases ht : target host handle b n steps w with
  | fault e v => rw [Action.bind_fault ht, Action.bind_fault (Action.bind_fault ht)]
  | exhausted => rw [Action.bind_exhausted ht, Action.bind_exhausted (Action.bind_exhausted ht)]
  | value t v =>
    have hcall : t.2.isCall = false := by rw [Step.isCall, hown t.2 (target_last ht)]; rfl
    rw [bind_assoc, Action.bind_value ht, Action.bind_value ht, bind_assoc]
    simp only [hcall, pure_bind]
    rfl

theorem invoke_located (hown : ∀ s, steps.getLast? = some s → s.args? = none)
    (types : Option (List TypeRef)) :
    invoke host handle b (.path n steps) types args w =
      (located host handle b n steps >>= fun t =>
        Resolution.invoke host handle t.1 t.2 types args) w := by
  rw [invoke, located]
  cases ht : target host handle b n steps w with
  | fault e v => rw [Action.bind_fault ht, Action.bind_fault (Action.bind_fault ht)]
  | exhausted => rw [Action.bind_exhausted ht, Action.bind_exhausted (Action.bind_exhausted ht)]
  | value t v =>
    rw [bind_assoc, Action.bind_value ht, Action.bind_value ht, bind_assoc]
    simp only [hown t.2 (target_last ht), pure_bind]

theorem located_nonnull {t : Value × Value} (h : located host handle b n steps w = .value t u) :
    t.1 ≠ .null := by
  obtain ⟨r, _, hr, hrest⟩ := Action.bind_eq_value.mp h
  obtain ⟨_, _, -, ht⟩ := Action.bind_eq_value.mp hrest
  cases ht
  have hnull := target_value hr
  intro hbase
  rw [hbase] at hnull
  cases hnull

/-- Finding what a path names leaves the chain as it is. -/
theorem located_layout {t : Value × Value} (hw : w.context.layout = .standard [] ro)
    (h : located host (run host depth) b n steps w = .value t u) :
    u.context.layout = .standard [] ro := by
  have hd := ((Host.steady_standard host ro).disciplined depth).programmed
  have hsteady : Action.Steady (· = .standard [] ro) (located host (run host depth) b n steps) :=
    hd.bind (target_obeys hd b n steps) fun _ => hd.bind (selected_obeys hd b _) fun _ => hd.pure _
  exact (hsteady.frame hw (.self w) h).layout.trans hw

/-! ## What is described -/

/-- The method that is described where the parameter types are given. -/
def described? (host : Host) (h : Heap) (base : Value) (name : String) (ts : List TypeRef) :
    Option Method :=
  Overload.pinned? (methodsOf host h base).2 name ts

theorem describe_pinned (host : Host) (base : Value) (ts : List TypeRef)
    (hn : Resolution.nameOf w.heap property = .ok name) :
    match described? host w.heap base name ts with
    | some m => describeMethod host base property (some ts) w = .value (infoOf m) w
    | none => ∃ e : Fault, e.kind = .methodNotFound ∧
        describeMethod host base property (some ts) w = .fault e w := by
  have hdescribe : describeMethod host base property (some ts) w =
      (infoOf <$> Action.ofExcept (Overload.find w.heap (methodsOf host w.heap base).1
        (methodsOf host w.heap base).2 name (some ts) [])) w := by
    rw [describeMethod, Action.bind_value (Action.heap_apply w), Resolution.ofExcept_ok hn, pure_bind]
  rw [hdescribe]
  cases hm : described? host w.heap base name ts with
  | some m =>
    dsimp only
    rw [Overload.find_pinned hm]
    rfl
  | none =>
    obtain ⟨e, he, hfind⟩ :=
      Overload.find_unpinned w.heap (methodsOf host w.heap base).1 [] hm
    refine ⟨e, he, ?_⟩
    rw [hfind]
    rfl

theorem describe_nameless {e : Fault} (hn : Resolution.nameOf w.heap property = .error e)
    (types : Option (List TypeRef)) :
    describeMethod host base property types w = .fault e w := by
  rw [describeMethod, Action.bind_value (Action.heap_apply w), hn]
  rfl

/-! ## Members of classes -/

/-- A class that claims calls of the name for its static members while none of them has these
parameter types; or its constructors, which are not described at all. -/
def Eclipsed (host : Host) (h : Heap) (base property : Value) (ts : List TypeRef) : Prop :=
  ∃ c name, base = .cls c ∧ Resolution.nameOf h property = .ok name ∧
    (name = constructorName ∨
      staticCandidates host c name ≠ [] ∧ ∀ m ∈ staticCandidates host c name, m.params ≠ ts)

theorem pinned?_append (ms ns : List Method) (name : String) (ts : List TypeRef) :
    Overload.pinned? (ms ++ ns) name ts =
      (Overload.pinned? ms name ts).or (Overload.pinned? ns name ts) := by
  simp only [Overload.pinned?, List.filter_append, List.find?_append]

/-- The static members of a name, among which a call looks. -/
theorem pinned?_statics (host : Host) (c : ClassId) (hname : name ≠ constructorName) :
    Overload.pinned? ((host.classes.allMethods c).filter (·.isStatic)) name ts =
      Overload.pinned? (staticCandidates host c name) name ts := by
  have hne : (name == constructorName) = false := by simpa using hname
  have hsame : ((host.classes.allMethods c).filter (·.isStatic)).filter (·.name == name) =
      (staticCandidates host c name).filter (·.name == name) := by
    rw [staticCandidates, hne, List.filter_filter, if_neg Bool.false_ne_true, List.filter_filter]
    refine List.filter_congr fun m _ => ?_
    cases m.name == name <;> simp
  rw [Overload.pinned?, hsame, Overload.pinned?]

/-- Static members have their name. -/
theorem pinned?_of_mem {c : ClassId} (hname : name ≠ constructorName) {m : Method}
    (hm : m ∈ staticCandidates host c name) (hts : m.params = ts) :
    ∃ k, Overload.pinned? (staticCandidates host c name) name ts = some k := by
  have hne : (name == constructorName) = false := by simpa using hname
  have hnamed : (m.name == name) = true := by
    rw [staticCandidates, hne, if_neg Bool.false_ne_true] at hm
    exact (Bool.and_eq_true_iff.mp (List.mem_filter.mp hm).2).2
  rw [← Option.isSome_iff_exists, Overload.pinned?, List.find?_isSome]
  exact ⟨m, List.mem_filter.mpr ⟨hm, hnamed⟩, by simp [hts]⟩

/-- What is described is what a call selects. -/
theorem described_selected (hn : Resolution.nameOf w.heap property = .ok name)
    (hclear : ¬Eclipsed host w.heap base property ts) :
    described? host w.heap base name ts = selected? host w.heap base name ts := by
  cases base with
  | cls c =>
    have hname : name ≠ constructorName := fun h => hclear ⟨c, name, rfl, hn, .inl h⟩
    have hmethods : (methodsOf host w.heap (.cls c)).2 =
        (host.classes.allMethods c).filter (·.isStatic) ++ host.classes.allMethods (.builtin .cls) :=
      rfl
    rw [described?, hmethods, pinned?_append, pinned?_statics host c hname, selected?]
    cases hc : (staticCandidates host c name).isEmpty with
    | true =>
      simp only [candidates, List.isEmpty_iff.mp hc]
      rfl
    | false =>
      simp only [candidates, hc]
      obtain ⟨m, hm, hts⟩ : ∃ m ∈ staticCandidates host c name, m.params = ts := by
        by_contra hno
        push Not at hno
        exact hclear ⟨c, name, rfl, hn, .inr ⟨List.isEmpty_eq_false_iff.mp hc, hno⟩⟩
      obtain ⟨k, hk⟩ := pinned?_of_mem hname hm hts
      rw [hk]
      exact hk.symm
  | _ => rfl

/-! ## Descriptions and calls -/

/-- What a path names is called as the chain calls it. -/
theorem run_invoke (hown : ∀ s, steps.getLast? = some s → s.args? = none)
    (hl : located host (run host depth) b n steps w = .value (base, property) u)
    (types : Option (List TypeRef)) (args : List Value) :
    run host (depth + 1) (.invoke b (.path n steps) types args) w =
      Resolution.invoke host (run host depth) base property types args u :=
  (invoke_located hown types).trans (Action.bind_value hl)

section Path
variable (hw : w.context.layout = .standard [] ro)
  (hown : ∀ s, steps.getLast? = some s → s.args? = none)
include hw hown

theorem described_value {o : Option MethodInfo}
    (h : run host (depth + 1) (.info b (.path n steps) (some ts)) w = .value o u) :
    ∃ base property, located host (run host depth) b n steps w = .value (base, property) u ∧
      (¬Eclipsed host u.heap base property ts → ∃ m self, o = some (infoOf m) ∧
        Outcome.Stands
          (afterClaim base property (m.invoke host (run host depth) self args) (u.flagged false))
          (run host (depth + 1) (.invoke b (.path n steps) (some ts) args) w)) := by
  obtain ⟨⟨base, property⟩, v, hl, hinfo⟩ :=
    Action.bind_eq_value.mp ((info_located hown (some ts)).symm.trans h)
  dsimp only at hinfo
  rw [map_eq_pure_bind] at hinfo
  obtain ⟨i, v', hi, ho⟩ := Action.bind_eq_value.mp hinfo
  cases ho
  cases hn : Resolution.nameOf v.heap property with
  | error e =>
    rw [describe_nameless hn] at hi
    cases hi
  | ok name =>
    have hdescribe := describe_pinned host base ts hn
    cases hm : described? host v.heap base name ts with
    | none =>
      rw [hm] at hdescribe
      obtain ⟨e, -, hfault⟩ := hdescribe
      rw [hfault] at hi
      cases hi
    | some m =>
      rw [hm] at hdescribe
      rw [hdescribe] at hi
      cases hi
      refine ⟨base, property, hl, fun hclear => ⟨m, (candidates host u.heap base name).2, rfl, ?_⟩⟩
      have hpinned := Resolution.invoke_pinned host (run host depth) ts args (located_layout hw hl)
        (located_nonnull hl) hn
      rw [← described_selected hn hclear, hm] at hpinned
      rw [run_invoke hown hl]
      exact hpinned

theorem described_fault {e : Fault}
    (h : run host (depth + 1) (.info b (.path n steps) (some ts)) w = .fault e u) :
    run host (depth + 1) (.invoke b (.path n steps) (some ts) args) w = .fault e u ∨
    ∃ base property, located host (run host depth) b n steps w = .value (base, property) u ∧
      (¬Eclipsed host u.heap base property ts → ∃ d : Fault, d.kind = e.kind ∧
        (run host (depth + 1) (.invoke b (.path n steps) (some ts) args) w =
            .fault d (u.flagged false) ∨
          run host (depth + 1) (.invoke b (.path n steps) (some ts) args) w =
            afterClaim base property (Action.fail d) (u.flagged false))) := by
  have hinfo : (located host (run host depth) b n steps >>= fun t =>
      some <$> describeMethod host t.1 t.2 (some ts)) w = .fault e u :=
    (info_located hown (some ts)).symm.trans h
  cases hl : located host (run host depth) b n steps w with
  | exhausted =>
    rw [Action.bind_exhausted hl] at hinfo
    cases hinfo
  | fault d v =>
    rw [Action.bind_fault hl] at hinfo
    cases hinfo
    exact .inl ((invoke_located hown (some ts)).trans (Action.bind_fault hl))
  | value t v =>
    obtain ⟨base, property⟩ := t
    rw [Action.bind_value hl, map_eq_pure_bind] at hinfo
    right
    rw [run_invoke hown hl]
    cases hn : Resolution.nameOf v.heap property with
    | error d =>
      rw [Action.bind_fault (describe_nameless hn (some ts))] at hinfo
      cases hinfo
      refine ⟨base, property, rfl, fun _ => ⟨e, rfl, .inl ?_⟩⟩
      exact Resolution.invoke_nameless (located_layout hw hl) (located_nonnull hl) hn _
    | ok name =>
      have hdescribe := describe_pinned host base ts hn
      cases hm : described? host v.heap base name ts with
      | some m =>
        rw [hm] at hdescribe
        rw [Action.bind_value hdescribe] at hinfo
        cases hinfo
      | none =>
        rw [hm] at hdescribe
        obtain ⟨d, hd, hfault⟩ := hdescribe
        rw [Action.bind_fault hfault] at hinfo
        cases hinfo
        refine ⟨base, property, rfl, fun hclear => ?_⟩
        have hpinned := Resolution.invoke_pinned host (run host depth) ts args (located_layout hw hl)
          (located_nonnull hl) hn
        rw [← described_selected hn hclear, hm] at hpinned
        obtain ⟨d', hd', hinvoke⟩ := hpinned
        exact ⟨d', hd'.trans hd.symm, .inr hinvoke⟩

/-- Calls of a name that a class claims for its static members are calls of these. -/
theorem static_call (ts : List TypeRef) (args : List Value) {c : ClassId}
    (hl : located host (run host depth) b n steps w = .value (.cls c, property) u)
    (hn : Resolution.nameOf u.heap property = .ok name) (hc : staticCandidates host c name ≠ []) :
    match Overload.pinned? (staticCandidates host c name) name ts with
    | some m => Outcome.Stands
        (afterClaim (.cls c) property (m.invoke host (run host depth) .null args) (u.flagged false))
        (run host (depth + 1) (.invoke b (.path n steps) (some ts) args) w)
    | none => ∃ e : Fault, e.kind = .methodNotFound ∧
        run host (depth + 1) (.invoke b (.path n steps) (some ts) args) w =
          afterClaim (.cls c) property (Action.fail e) (u.flagged false) := by
  have hcandidates : candidates host u.heap (.cls c) name = (staticCandidates host c name, .null) := by
    rw [candidates, if_neg (by simpa using hc)]
  have hpinned := Resolution.invoke_pinned host (run host depth) ts args (located_layout hw hl)
    (located_nonnull hl) hn
  rw [selected?, hcandidates] at hpinned
  rw [run_invoke hown hl]
  exact hpinned

/-- The description of a method by its parameter types against the call of it with these. Unless a class
eclipses the method by its own members, what is described is claimed and called, and what is not found
is not found by the call either. Calls that a class claims are calls of its members. -/
theorem description_true (ts : List TypeRef) (args : List Value) :
    (∀ o u, run host (depth + 1) (.info b (.path n steps) (some ts)) w = .value o u →
      ∃ base property, located host (run host depth) b n steps w = .value (base, property) u ∧
        (¬Eclipsed host u.heap base property ts → ∃ m self, o = some (infoOf m) ∧
          Outcome.Stands
            (afterClaim base property (m.invoke host (run host depth) self args) (u.flagged false))
            (run host (depth + 1) (.invoke b (.path n steps) (some ts) args) w))) ∧
    (∀ e u, run host (depth + 1) (.info b (.path n steps) (some ts)) w = .fault e u →
      run host (depth + 1) (.invoke b (.path n steps) (some ts) args) w = .fault e u ∨
      ∃ base property, located host (run host depth) b n steps w = .value (base, property) u ∧
        (¬Eclipsed host u.heap base property ts → ∃ d : Fault, d.kind = e.kind ∧
          (run host (depth + 1) (.invoke b (.path n steps) (some ts) args) w =
              .fault d (u.flagged false) ∨
            run host (depth + 1) (.invoke b (.path n steps) (some ts) args) w =
              afterClaim base property (Action.fail d) (u.flagged false)))) ∧
    ∀ c property name u,
      located host (run host depth) b n steps w = .value (.cls c, property) u →
      Resolution.nameOf u.heap property = .ok name → staticCandidates host c name ≠ [] →
      match Overload.pinned? (staticCandidates host c name) name ts with
      | some m => Outcome.Stands
          (afterClaim (.cls c) property (m.invoke host (run host depth) .null args)
            (u.flagged false))
          (run host (depth + 1) (.invoke b (.path n steps) (some ts) args) w)
      | none => ∃ e : Fault, e.kind = .methodNotFound ∧
          run host (depth + 1) (.invoke b (.path n steps) (some ts) args) w =
            afterClaim (.cls c) property (Action.fail e) (u.flagged false) :=
  ⟨fun _ _ h => described_value hw hown h, fun _ _ h => described_fault hw hown h,
    fun _ _ _ _ hl hn hc => static_call hw hown ts args hl hn hc⟩

end Path

/-! ## A static method in the way -/

/-- A static method whose name is that of a method of all classes. -/
def labelMethods : List Declaration :=
  [Builtin.function "getName" [.string] .string fun _ args => Builtin.argument args 0]

def labelClass : HostClass where
  shape := ⟨"T", .plain, some (.builtin .object), [], none⟩
  members := .declare (.host 0) labelMethods [] [] []

def labelHost : Host := ⟨.ofHost #[labelClass], fun _ {_} q => pure q.neutral⟩

/-- A world in which the class is imported. -/
def labelWorld : World :=
  ⟨⟨labelHost.classes.lineage, #[]⟩,
    { Context.standard false false with
      imports := { Imports.none with classes := [("T", .host 0)] } }, []⟩

/-- The step `.getName`. -/
def labelSteps : List Step := [⟨.field "getName", none⟩]

theorem label_located (depth : Nat) :
    located labelHost (run labelHost (depth + 1)) .empty (.name "T") labelSteps labelWorld =
      .value (.cls (.host 0), .text "getName") labelWorld := rfl

theorem label_layout : labelWorld.context.layout = .standard [] false := rfl

theorem label_name : Resolution.nameOf labelWorld.heap (.text "getName") = .ok "getName" := rfl

theorem label_ancestors :
    labelHost.classes.lineage.ancestors (.host 0) = [.host 0, .builtin .object] :=
  Lineage.ancestors_below_object (by decide +kernel)

theorem label_interfaces : labelHost.classes.lineage.allInterfaces (.host 0) = [] := by
  refine Lineage.allInterfaces_eq_nil ?_
  rw [label_ancestors]
  decide +kernel

theorem label_methods : labelHost.classes.allMethods (.host 0) =
    ClassMembers.place (.host 0) false labelMethods ++
      ClassMembers.place (.builtin .object) false Builtin.objectMethods := by
  rw [ClassTable.allMethods, ClassTable.defaultMethods, label_interfaces, ClassTable.classMethods,
    label_ancestors]
  rfl

theorem class_methods : labelHost.classes.allMethods (.builtin .cls) =
    ClassMembers.place (.builtin .cls) false Builtin.classMethods ++
      ClassMembers.place (.builtin .object) false Builtin.objectMethods := by
  rw [ClassTable.allMethods, ClassTable.defaultMethods, Lineage.allInterfaces_builtin,
    ClassTable.classMethods, Lineage.ancestors_below_object rfl]
  rfl

theorem label_statics : (staticCandidates labelHost (.host 0) "getName").map (·.params) =
    [[.string]] := by
  rw [staticCandidates, label_methods]
  rfl

/-- Both methods of the name are described: that of the class, and that of all classes. -/
theorem label_described :
    (described? labelHost labelWorld.heap (.cls (.host 0)) "getName" [.string]).map infoOf =
        some ⟨"getName", .string, [.string]⟩ ∧
      (described? labelHost labelWorld.heap (.cls (.host 0)) "getName" []).map infoOf =
        some ⟨"getName", .string, []⟩ := by
  have hmethods : (methodsOf labelHost labelWorld.heap (.cls (.host 0))).2 =
      (labelHost.classes.allMethods (.host 0)).filter (·.isStatic) ++
        labelHost.classes.allMethods (.builtin .cls) := rfl
  rw [described?, described?, hmethods, label_methods, class_methods]
  exact ⟨rfl, rfl⟩

theorem label_own : ∀ s, labelSteps.getLast? = some s → s.args? = none := by
  rintro s ⟨⟩
  rfl

theorem label_info {ts : List TypeRef} {i : MethodInfo}
    (hi : (described? labelHost labelWorld.heap (.cls (.host 0)) "getName" ts).map infoOf = some i) :
    run labelHost 2 (.info .empty (.path (.name "T") labelSteps) (some ts)) labelWorld =
      .value (some i) labelWorld := by
  obtain ⟨m, hm, rfl⟩ := Option.map_eq_some_iff.mp hi
  have hdescribe := describe_pinned labelHost (.cls (.host 0)) ts label_name
  rw [hm] at hdescribe
  refine (info_located label_own (some ts)).trans ?_
  rw [Action.bind_value (label_located 0), map_eq_pure_bind, Action.bind_value hdescribe]
  rfl

/-- The method `getName` of all classes is described for a class with a static `getName` of other
parameters, and no call selects it. -/
theorem described_name_eclipsed :
    run labelHost 2 (.info .empty (.path (.name "T") labelSteps) (some [])) labelWorld =
        .value (some ⟨"getName", .string, []⟩) labelWorld ∧
      ∃ e : Fault, e.kind = .methodNotFound ∧
        run labelHost 2 (.invoke .empty (.path (.name "T") labelSteps) (some []) []) labelWorld =
          afterClaim (.cls (.host 0)) (.text "getName") (Action.fail e)
            (labelWorld.flagged false) := by
  refine ⟨label_info label_described.2, ?_⟩
  have hne : staticCandidates labelHost (.host 0) "getName" ≠ [] := by
    intro h
    have hparams := label_statics
    rw [h] at hparams
    cases hparams
  have hcall := static_call label_layout label_own [] [] (label_located 0) label_name hne
  have hnone : Overload.pinned? (staticCandidates labelHost (.host 0) "getName") "getName" [] =
      none := by
    rw [staticCandidates, label_methods]
    rfl
  rw [hnone] at hcall
  exact hcall

theorem static_name_described : ∃ m self,
    some (⟨"getName", .string, [.string]⟩ : MethodInfo) = some (infoOf m) ∧
      Outcome.Stands
        (afterClaim (.cls (.host 0)) (.text "getName")
          (m.invoke labelHost (run labelHost 1) self [.text "x"]) (labelWorld.flagged false))
        (run labelHost 2 (.invoke .empty (.path (.name "T") labelSteps) (some [.string]) [.text "x"])
          labelWorld) := by
  obtain ⟨base, property, hl, hcalled⟩ :=
    (description_true label_layout label_own [.string] [.text "x"]).1 _ _
      (label_info label_described.1)
  cases hl
  refine hcalled ?_
  rintro ⟨c, name, hc, hn, heclipsed⟩
  obtain rfl : "getName" = name := Except.ok.inj (label_name.symm.trans hn)
  obtain hname | ⟨-, hnone⟩ := heclipsed
  · exact absurd hname (by decide)
  · cases hc
    have hmem : [TypeRef.string] ∈
        (staticCandidates labelHost (.host 0) "getName").map (·.params) := by
      rw [label_statics]
      exact List.mem_singleton.mpr rfl
    obtain ⟨m, hm, hparams⟩ := List.mem_map.mp hmem
    exact hnone m hm hparams

end ExprLang.Evaluation
