import ExprLang.Proofs.Evaluation.Agreeing

/-! The resolvers agree where the tasks that they start agree: they answer with nothing but rooted
values. -/

namespace ExprLang.Resolution

open ExprLang.Action (Agrees)

variable {α : Type} {O : Origin} {q : Request α}

theorem neutral_agrees (q : Request α) :
    Agrees O (q.Gives O) (pure q.neutral) (pure q.neutral) := .pure q.gives_neutral

/-! ## Names -/

theorem knownName?_agrees (store : Nat) (base property : Value) :
    Agrees O (fun _ => True) (knownName? store base property) (knownName? store base property) :=
  Agrees.context.bind fun _ _ => .pure trivial

theorem names_agrees (store : Nat) (hq : q.Rooted O) :
    Agrees O (q.Gives O) (names store q) (names store q) := by
  cases q with
  | get base property =>
    refine (knownName?_agrees store base property).bind fun name _ => ?_
    cases name with
    | none => exact .pure Value.rooted_null
    | some name =>
      exact (Agrees.claim _ _).bind fun _ _ => Agrees.context.bind fun c hc =>
        .pure ((hc.stores store).getD_find? name)
  | type base property =>
    refine (knownName?_agrees store base property).bind fun name _ => ?_
    cases name with
    | none => exact .pure trivial
    | some name => exact (Agrees.claim _ _).bind fun _ _ => .pure trivial
  | set base property v =>
    simp only [names]
    cases plainName? base property with
    | none => exact .pure trivial
    | some name => exact (Agrees.claim _ _).bind fun _ _ => .setStore store name hq.2.2
  | readOnly base property =>
    refine (knownName?_agrees store base property).bind fun name _ => ?_
    cases name with
    | none => exact .pure trivial
    | some name => exact (Agrees.claim _ _).bind fun _ _ => .pure trivial
  | invoke base method types args => exact neutral_agrees _
  | convert v t => exact neutral_agrees _

/-! ## Maps -/

theorem maps_agrees (readOnly : Bool) (hq : q.Rooted O) :
    Agrees O (q.Gives O) (maps readOnly q) (maps readOnly q) := by
  cases q with
  | get base property =>
    cases base <;> first | exact neutral_agrees _ | skip
    exact (Agrees.claim _ _).bind fun _ _ => Agrees.heap.bind fun h hh =>
      .pure (h.rooted_lookup (hh.entries _) _)
  | type base property =>
    cases base <;> first | exact neutral_agrees _ | skip
    exact (Agrees.claim _ _).bind fun _ _ => .pure trivial
  | set base property v =>
    obtain ⟨-, hproperty, hv⟩ := hq
    cases base <;> first | exact neutral_agrees _ | skip
    next a =>
    exact (Agrees.claim _ _).bind fun _ _ => Agrees.heap.bind fun h hh =>
      .ite (.fail _) (.setCells (hh.put a (h.forall_mem_putEntry (hh.entries a) hproperty hv)))
  | readOnly base property =>
    cases base <;> first | exact neutral_agrees _ | skip
    exact (Agrees.claim _ _).bind fun _ _ => .pure trivial
  | invoke base method types args => exact neutral_agrees _
  | convert v t => exact neutral_agrees _

/-! ## Lists and arrays -/

theorem indexOf_agrees (property : Value) :
    Agrees O (fun _ => True) (indexOf property) (indexOf property) :=
  Agrees.heap.bind fun _ _ => (Agrees.ofExcept_any _).bind fun _ _ => .pure trivial

theorem place_agrees (index : Int) (length : Nat) :
    Agrees O (fun _ => True) (place index length) (place index length) := by
  unfold place
  split
  · exact .pure trivial
  · exact .fail _

/-- The item at a place, or null. -/
theorem rooted_item {vs : List Value} (hvs : ∀ v ∈ vs, v.Rooted O) (index : Int) :
    (((place? index vs.length).bind (vs[·]?)).getD .null).Rooted O := by
  cases hv : (place? index vs.length).bind (vs[·]?) with
  | none => exact Value.rooted_null
  | some v =>
    obtain ⟨i, -, hi⟩ := Option.bind_eq_some_iff.mp hv
    exact hvs v (List.mem_of_getElem? hi)

theorem rooted_set {vs : List Value} (hvs : ∀ v ∈ vs, v.Rooted O) (i : Nat) {v : Value}
    (hv : v.Rooted O) : ∀ w ∈ vs.set i v, w.Rooted O := fun w hw =>
  (List.mem_or_eq_of_mem_set hw).elim (hvs w) fun he => he ▸ hv

theorem lists_agrees (readOnly : Bool) (hq : q.Rooted O) :
    Agrees O (q.Gives O) (lists readOnly q) (lists readOnly q) := by
  cases q with
  | get base property =>
    cases base <;> first | exact neutral_agrees _ | skip
    exact (Agrees.claim _ _).bind fun _ _ => (indexOf_agrees _).bind fun index _ =>
      Agrees.heap.bind fun h hh => .pure (rooted_item (hh.items _) index)
  | type base property =>
    cases base <;> first | exact neutral_agrees _ | skip
    exact (Agrees.claim _ _).bind fun _ _ => (indexOf_agrees _).bind fun _ _ =>
      Agrees.heap.bind fun _ _ => (place_agrees _ _).bind fun _ _ => .pure trivial
  | set base property v =>
    cases base <;> first | exact neutral_agrees _ | skip
    next a =>
    exact (Agrees.claim _ _).bind fun _ _ => .ite (.fail _) <| (indexOf_agrees _).bind fun _ _ =>
      Agrees.heap.bind fun h hh => (place_agrees _ _).bind fun i _ =>
      .setCells (hh.put a (rooted_set (hh.items a) i hq.2.2))
  | readOnly base property =>
    cases base <;> first | exact neutral_agrees _ | skip
    exact (Agrees.claim _ _).bind fun _ _ => (indexOf_agrees _).bind fun _ _ =>
      Agrees.heap.bind fun _ _ => (place_agrees _ _).bind fun _ _ => .pure trivial
  | invoke base method types args => exact neutral_agrees _
  | convert v t => exact neutral_agrees _

theorem arrays_agrees (readOnly : Bool) (hq : q.Rooted O) :
    Agrees O (q.Gives O) (arrays readOnly q) (arrays readOnly q) := by
  cases q with
  | get base property =>
    cases base <;> first | exact neutral_agrees _ | skip
    exact (Agrees.claim _ _).bind fun _ _ => (indexOf_agrees _).bind fun index _ =>
      Agrees.heap.bind fun h hh => .pure (rooted_item (hh.array _) index)
  | type base property =>
    cases base <;> first | exact neutral_agrees _ | skip
    exact (Agrees.claim _ _).bind fun _ _ => (indexOf_agrees _).bind fun _ _ =>
      Agrees.heap.bind fun _ _ => (place_agrees _ _).bind fun _ _ => .pure trivial
  | set base property v =>
    cases base <;> first | exact neutral_agrees _ | skip
    next a =>
    exact (Agrees.claim _ _).bind fun _ _ => .ite (.fail _) <| (indexOf_agrees _).bind fun _ _ =>
      Agrees.heap.bind fun h hh => (place_agrees _ _).bind fun i _ =>
      .ite (.setCells (hh.put a (rooted_set (hh.array a) i hq.2.2))) (.fail _)
  | readOnly base property =>
    cases base <;> first | exact neutral_agrees _ | skip
    exact (Agrees.claim _ _).bind fun _ _ => (indexOf_agrees _).bind fun _ _ =>
      Agrees.heap.bind fun _ _ => (place_agrees _ _).bind fun _ _ => .pure trivial
  | invoke base method types args => exact neutral_agrees _
  | convert v t => exact neutral_agrees _

/-! ## Objects -/

section Objects
variable {host : Host} {handle other : Handler} (ha : Agreement O host handle other)
include ha

theorem callBest_agrees {owner name : String} {methods : List Method}
    (hmethods : ∀ f ∈ methods, host.classes.Declares f) (types : Option (List TypeRef))
    {self : Value} {args : List Value} (hself : self.Rooted O) (hargs : ∀ v ∈ args, v.Rooted O) :
    Agrees O (Value.Rooted O) (callBest host handle owner methods name types self args)
      (callBest host other owner methods name types self args) :=
  Agrees.heap.bind fun _ _ =>
    (Agrees.ofExcept (P := host.classes.Declares) fun f hf =>
      hmethods f (Overload.mem_of_find hf)).bind fun _ hf =>
    method_invoke_agrees ha hf hself hargs

theorem statics_agrees (hq : q.Rooted O) :
    Agrees O (q.Gives O) (statics host handle q) (statics host other q) := by
  cases q with
  | get base property =>
    cases base <;> first | exact neutral_agrees _ | skip
    next c =>
    refine Agrees.heap.bind fun _ _ => (Agrees.ofExcept_any _).bind fun name _ => .ite ?_ ?_
    · exact (Agrees.claim _ _).bind fun _ _ => .pure hq.1
    · split
      · next f hf =>
        have hvalue := ha.preserves.fields c f (List.mem_of_find?_eq_some hf)
        exact (Agrees.claim _ _).bind fun _ _ => .pure hvalue
      · exact .pure Value.rooted_null
  | type base property =>
    cases base <;> first | exact neutral_agrees _ | skip
    refine Agrees.heap.bind fun _ _ => (Agrees.ofExcept_any _).bind fun name _ => ?_
    split
    · exact (Agrees.claim _ _).bind fun _ _ => .pure trivial
    · exact .pure trivial
  | set base property v =>
    cases base <;> first | exact neutral_agrees _ | skip
    exact Agrees.heap.bind fun _ _ => (Agrees.ofExcept_any _).bind fun name _ =>
      .ite ((Agrees.claim _ _).bind fun _ _ => .fail _) (.pure trivial)
  | readOnly base property =>
    cases base <;> first | exact neutral_agrees _ | skip
    exact Agrees.heap.bind fun _ _ => (Agrees.ofExcept_any _).bind fun name _ =>
      .ite ((Agrees.claim _ _).bind fun _ _ => .pure trivial) (.pure trivial)
  | invoke base method types args =>
    cases base <;> first | exact neutral_agrees _ | skip
    refine Agrees.heap.bind fun _ _ => (Agrees.ofExcept_any _).bind fun name _ =>
      .ite (.pure Value.rooted_null) <| (Agrees.claim _ _).bind fun _ _ =>
      callBest_agrees ha (fun f hf => ?_) types Value.rooted_null hq.2.2
    split at hf
    · exact ⟨_, .inr hf⟩
    · exact ClassTable.declares_of_mem_allMethods (List.mem_filter.mp hf).1
  | convert v t => exact neutral_agrees _

theorem records_agrees (hq : q.Rooted O) :
    Agrees O (q.Gives O) (records host handle q) (records host other q) := by
  cases q with
  | get base property =>
    refine Agrees.heap.bind fun _ _ => ?_
    split
    · exact .pure Value.rooted_null
    · refine (Agrees.claim _ _).bind fun _ _ => (Agrees.ofExcept_any _).bind fun name _ => ?_
      dsimp only
      split
      · next hreader =>
        have hf := List.mem_of_find?_eq_some hreader
        exact method_run_agrees ha (ClassTable.declares_of_mem_allMethods hf) hq.1 nofun
      · exact .fail _
  | type base property =>
    exact Agrees.heap.bind fun _ _ =>
      .ite ((Agrees.claim _ _).bind fun _ _ => .pure trivial) (.pure trivial)
  | set base property v =>
    refine Agrees.heap.bind fun _ _ => ?_
    split
    · exact .pure trivial
    · exact (Agrees.claim _ _).bind fun _ _ => (Agrees.ofExcept_any _).bind fun _ _ =>
        .ite (.fail _) (.fail _)
  | readOnly base property =>
    exact Agrees.heap.bind fun _ _ =>
      .ite ((Agrees.claim _ _).bind fun _ _ => .pure trivial) (.pure trivial)
  | invoke base method types args => exact neutral_agrees _
  | convert v t => exact neutral_agrees _

omit ha in
theorem target?_agrees (base property : Value) :
    Agrees O (fun _ => True) (target? base property) (target? base property) := by
  refine Agrees.heap.bind fun h _ => ?_
  split
  · exact .pure trivial
  · exact (Agrees.ofExcept_any _).bind fun _ _ => .pure trivial

omit ha in
/-- The methods of a property that is found are declared. -/
theorem property_agrees {h : Heap} {c : ClassId} {name : String} :
    Agrees O (fun p : BeanProperty =>
        ∀ f, p.reader = some f ∨ p.writer = some f → host.classes.Declares f)
      (Action.ofExcept (property h (.ofClass host.classes c) name))
      (Action.ofExcept (property h (.ofClass host.classes c) name)) :=
  .ofExcept fun _ hp _ hf => declares_of_property hp hf

theorem beans_agrees (readOnly : Bool) (hq : q.Rooted O) :
    Agrees O (q.Gives O) (beans host handle readOnly q) (beans host other readOnly q) := by
  cases q with
  | get base property =>
    refine (target?_agrees base property).bind fun found _ => ?_
    rcases found with _ | ⟨c, name⟩
    · exact .pure Value.rooted_null
    · refine (Agrees.claim _ _).bind fun _ _ => Agrees.heap.bind fun _ _ =>
        property_agrees.bind fun p hp => ?_
      cases hf : p.reader with
      | some f => exact method_run_agrees ha (hp f (.inl hf)) hq.1 nofun
      | none => exact .fail _
  | type base property =>
    refine (target?_agrees base property).bind fun found _ => ?_
    rcases found with _ | ⟨c, name⟩
    · exact .pure trivial
    · exact (Agrees.claim _ _).bind fun _ _ => Agrees.heap.bind fun _ _ =>
        (Agrees.ofExcept_any _).bind fun _ _ => .pure trivial
  | set base property v =>
    refine (target?_agrees base property).bind fun found _ => ?_
    rcases found with _ | ⟨c, name⟩
    · exact .pure trivial
    · refine (Agrees.claim _ _).bind fun _ _ => .ite (.fail _) <| Agrees.heap.bind fun _ _ =>
        property_agrees.bind fun p hp => ?_
      cases hf : p.writer with
      | some f =>
        exact (method_invoke_agrees ha (hp f (.inr hf)) hq.1
          (List.forall_mem_singleton.mpr hq.2.2)).bind fun _ _ => .pure trivial
      | none => exact .fail _
  | readOnly base property =>
    refine (target?_agrees base property).bind fun found _ => ?_
    rcases found with _ | ⟨c, name⟩
    · exact .pure trivial
    · exact (Agrees.claim _ _).bind fun _ _ => .ite (.pure trivial) <|
        Agrees.heap.bind fun _ _ => (Agrees.ofExcept_any _).bind fun _ _ => .pure trivial
  | invoke base method types args =>
    refine (target?_agrees base method).bind fun found _ => ?_
    rcases found with _ | ⟨c, name⟩
    · exact .pure Value.rooted_null
    · exact (Agrees.claim _ _).bind fun _ _ => Agrees.heap.bind fun _ _ =>
        callBest_agrees ha (fun f hf => ClassTable.declares_of_mem_allMethods hf) types hq.1 hq.2.2
  | convert v t => exact neutral_agrees _

/-! ## The chain -/

theorem answer_agrees (r : Resolver) (hq : q.Rooted O) :
    Agrees O (q.Gives O) (answer host handle r q) (answer host other r q) := by
  cases r with
  | names store => exact names_agrees store hq
  | statics => exact statics_agrees ha hq
  | maps readOnly => exact maps_agrees readOnly hq
  | lists readOnly => exact lists_agrees readOnly hq
  | arrays readOnly => exact arrays_agrees readOnly hq
  | records => exact records_agrees ha hq
  | beans readOnly => exact beans_agrees ha readOnly hq
  | custom i => exact custom_agrees ha.preserves i hq
  | group members => exact neutral_agrees q

theorem resolve_agrees (hq : q.Rooted O) :
    Agrees O (q.Gives O) (resolve host handle q) (resolve host other q) :=
  .askChain q.gives_neutral fun r => answer_agrees ha r hq

theorem require_agrees (base property : Value) (hq : q.Rooted O) :
    Agrees O (q.Gives O) (require host handle base property q) (require host other base property q) :=
  (resolve_agrees ha hq).bind fun _ hb => Agrees.isResolved.bind fun _ _ =>
    .ite (.pure hb) (Agrees.heap.bind fun _ _ => .fail _)

variable {base property : Value}

theorem get_agrees (hbase : base.Rooted O) (hproperty : property.Rooted O) :
    Agrees O (Value.Rooted O) (get host handle base property) (get host other base property) :=
  require_agrees ha base property (q := .get base property) ⟨hbase, hproperty⟩

theorem type_agrees (hbase : base.Rooted O) (hproperty : property.Rooted O) :
    Agrees O (fun _ => True) (type host handle base property) (type host other base property) :=
  require_agrees ha base property (q := .type base property) ⟨hbase, hproperty⟩

theorem readOnly_agrees (hbase : base.Rooted O) (hproperty : property.Rooted O) :
    Agrees O (fun _ => True) (readOnly host handle base property)
      (readOnly host other base property) :=
  require_agrees ha base property (q := .readOnly base property) ⟨hbase, hproperty⟩

theorem set_agrees (hbase : base.Rooted O) (hproperty : property.Rooted O) {v : Value}
    (hv : v.Rooted O) :
    Agrees O (fun _ => True) (set host handle base property v) (set host other base property v) :=
  require_agrees ha base property (q := .set base property v) ⟨hbase, hproperty, hv⟩

theorem invoke_agrees (types : Option (List TypeRef)) {method : Value} {args : List Value}
    (hbase : base.Rooted O) (hmethod : method.Rooted O) (hargs : ∀ v ∈ args, v.Rooted O) :
    Agrees O (Value.Rooted O) (invoke host handle base method types args)
      (invoke host other base method types args) :=
  (resolve_agrees ha (q := .invoke base method types args) ⟨hbase, hmethod, hargs⟩).bind
    fun _ hb => Agrees.isResolved.bind fun _ _ =>
    .ite (.pure hb) (Agrees.heap.bind fun _ _ => .fail _)

end Objects

end ExprLang.Resolution
