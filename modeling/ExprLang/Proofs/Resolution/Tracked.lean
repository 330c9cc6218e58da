import ExprLang.Proofs.Evaluation.Conforming
import ExprLang.Proofs.Resolution.Writing

/-! The resolvers of the standard chain only write to cells as known. -/

namespace ExprLang.Resolution

open Regime (Tracks lasting_any lasting_knows)

variable {α : Type} {R : Regime} {m : Memory} {q : Request α}

theorem yields_neutral (q : Request α) (m : Memory) : q.Yields m q.neutral := by
  cases q <;> first | trivial | exact Value.grounded_null

theorem lasting_yields (q : Request α) : R.Lasting q.Yields := by
  cases q <;> first | exact lasting_any | exact lasting_knows

theorem neutral_tracks (q : Request α) : R.Tracks m (pure q.neutral) q.Yields :=
  .pure fun m' _ => yields_neutral q m'

/-! ## Names -/

theorem knownName?_tracks (store : Nat) (base property : Value) :
    R.Tracks m (knownName? store base property) Memory.Any :=
  .context_bind fun _ _ _ _ => .pure_any _

theorem names_tracks (store : Nat) (hq : q.Grounded m) : R.Tracks m (names store q) q.Yields := by
  cases q with
  | get base property =>
    refine (knownName?_tracks store base property).bind fun name m₁ _ _ => ?_
    cases name with
    | none => exact .pure_value Value.grounded_null
    | some name =>
      refine (Tracks.claim _ _).bind fun _ m₂ _ _ => .context_bind fun m₃ c _ hc => .pure_value ?_
      cases hv : (c.store store).find? name with
      | none => exact Value.grounded_null
      | some v => exact hc.stores store (name, v) (Bindings.mem_of_find? hv)
  | type base property =>
    refine (knownName?_tracks store base property).bind fun name m₁ _ _ => ?_
    cases name with
    | none => exact .pure_any _
    | some name => exact (Tracks.claim _ _).bind fun _ _ _ _ => .pure_any _
  | set base property v =>
    obtain ⟨-, -, hv, -⟩ := hq
    simp only [names]
    cases plainName? base property with
    | none => exact .pure_any _
    | some name =>
      exact (Tracks.claim _ _).bind fun _ m₁ h₁ _ => .setStore store name (hv.mono h₁.kinds)
  | readOnly base property =>
    refine (knownName?_tracks store base property).bind fun name m₁ _ _ => ?_
    cases name with
    | none => exact .pure_any _
    | some name => exact (Tracks.claim _ _).bind fun _ _ _ _ => .pure_any _
  | invoke base method types args => exact neutral_tracks _
  | convert v t => exact neutral_tracks _

/-! ## Maps -/

theorem maps_tracks (hq : q.Grounded m) : R.Tracks m (maps false q) q.Yields := by
  cases q with
  | get base property =>
    cases base <;> first | exact neutral_tracks _ | skip
    exact (Tracks.claim _ _).bind fun _ m₁ _ _ => .heap_bind fun m₂ _ =>
      .pure_value (Memory.knows_lookup (m₂.grounded.entries _) _ _)
  | type base property =>
    cases base <;> first | exact neutral_tracks _ | skip
    exact (Tracks.claim _ _).bind fun _ _ _ _ => .pure_any _
  | set base property v =>
    obtain ⟨hbase, hproperty, hv, -⟩ := hq
    cases base <;> first | exact neutral_tracks _ | skip
    refine (Tracks.claim _ _).bind fun _ m₁ h₁ _ => fun m₂ w h₂ hw => ?_
    obtain ⟨m₃, hc, hh⟩ := m₂.putEntry_reached
      (Kinds.getElem?_of_prefix (h₁.kinds.trans h₂.kinds) hbase.has)
      (hproperty.mono (h₁.kinds.trans h₂.kinds)) (hv.mono (h₁.kinds.trans h₂.kinds))
    show R.Ends m₂ _ (Action.setCells (w.heap.put _ _) w)
    rw [hw.heap]
    exact hw.setCells (.single hc) hh
  | readOnly base property =>
    cases base <;> first | exact neutral_tracks _ | skip
    exact (Tracks.claim _ _).bind fun _ _ _ _ => .pure_any _
  | invoke base method types args => exact neutral_tracks _
  | convert v t => exact neutral_tracks _

/-! ## Lists and arrays -/

theorem indexOf_tracks (property : Value) : R.Tracks m (indexOf property) Memory.Any :=
  .heap_bind fun _ _ => (Tracks.ofExcept_any _).bind fun _ _ _ _ => .pure_any _

theorem place_tracks (index : Int) (length : Nat) : R.Tracks m (place index length) Memory.Any := by
  unfold place
  split
  · exact .pure_any _
  · exact .fail _

theorem place_bind_ends {β : Type} {Q : Memory → β → Prop} {w : World} {f : Nat → Action β}
    (hw : R.Standing m w) (index : Int) (length : Nat) (hf : ∀ i, R.Ends m Q (f i w)) :
    R.Ends m Q ((place index length >>= f) w) := by
  unfold place
  split
  · next i _ => exact hf i
  · exact hw.fails _

/-- The item at a place, or null. -/
theorem item_knows {vs : List Value} (hvs : m.KnowsAll vs) (index : Int) :
    m.Knows (((place? index vs.length).bind (vs[·]?)).getD .null) := by
  cases hv : (place? index vs.length).bind (vs[·]?) with
  | none => exact Value.grounded_null
  | some v =>
    obtain ⟨i, -, hi⟩ := Option.bind_eq_some_iff.mp hv
    exact hvs v (List.mem_of_getElem? hi)

theorem lists_tracks (hq : q.Grounded m) : R.Tracks m (lists false q) q.Yields := by
  cases q with
  | get base property =>
    cases base <;> first | exact neutral_tracks _ | skip
    exact (Tracks.claim _ _).bind fun _ m₁ _ _ => (indexOf_tracks _).bind fun index m₂ _ _ =>
      .heap_bind fun m₃ _ => .pure_value (item_knows (m₃.grounded.items _) index)
  | type base property =>
    cases base <;> first | exact neutral_tracks _ | skip
    exact (Tracks.claim _ _).bind fun _ _ _ _ => (indexOf_tracks _).bind fun _ _ _ _ =>
      .heap_bind fun _ _ => (place_tracks _ _).bind fun _ _ _ _ => .pure_any _
  | set base property v =>
    obtain ⟨hbase, -, hv, -⟩ := hq
    cases base <;> first | exact neutral_tracks _ | skip
    next a =>
    refine (Tracks.claim _ _).bind fun _ m₁ h₁ _ => (indexOf_tracks _).bind fun index m₂ h₂ _ =>
      fun m₃ w h₃ hw => ?_
    have hk := h₁.kinds.trans (h₂.kinds.trans h₃.kinds)
    show R.Ends m₃ _ ((place index (w.heap.items a).length >>= fun i =>
      Action.setCells (w.heap.put a (.items ((w.heap.items a).set i v)))) w)
    rw [hw.heap]
    refine place_bind_ends hw index _ fun i => ?_
    have hvs : m₃.KnowsAll ((m₃.heap.items a).set i v) := fun x hx =>
      (List.mem_or_eq_of_mem_set hx).elim (m₃.grounded.items a x) fun he => he ▸ hv.mono hk
    obtain ⟨m₄, hc, hh⟩ := m₃.putItems_reached (Kinds.getElem?_of_prefix hk hbase.has) hvs
    exact hw.setCells (.single hc) hh
  | readOnly base property =>
    cases base <;> first | exact neutral_tracks _ | skip
    exact (Tracks.claim _ _).bind fun _ _ _ _ => (indexOf_tracks _).bind fun _ _ _ _ =>
      .heap_bind fun _ _ => (place_tracks _ _).bind fun _ _ _ _ => .pure_any _
  | invoke base method types args => exact neutral_tracks _
  | convert v t => exact neutral_tracks _

/-- The check of a write to an array lets through what the type of the items takes, but for null. -/
theorem takes_of_all {h : Heap} {c : TypeRef} {v : Value}
    (hv : (h.typeOf? v).all (h.lineage.assignable c) = true)
    (hnull : v = .null → c.isPrimitive = false) : h.Takes c v := by
  unfold Heap.Takes
  cases ht : h.typeOf? v with
  | none =>
    refine hnull ?_
    cases v <;> first | rfl | cases ht
  | some t =>
    rw [ht] at hv
    exact hv

theorem arrays_tracks (hq : q.Grounded m) : R.Tracks m (arrays false q) q.Yields := by
  cases q with
  | get base property =>
    cases base <;> first | exact neutral_tracks _ | skip
    exact (Tracks.claim _ _).bind fun _ m₁ _ _ => (indexOf_tracks _).bind fun index m₂ _ _ =>
      .heap_bind fun m₃ _ => .pure_value (item_knows (m₃.grounded.array_items _) index)
  | type base property =>
    cases base <;> first | exact neutral_tracks _ | skip
    exact (Tracks.claim _ _).bind fun _ _ _ _ => (indexOf_tracks _).bind fun _ _ _ _ =>
      .heap_bind fun _ _ => (place_tracks _ _).bind fun _ _ _ _ => .pure_any _
  | set base property v =>
    obtain ⟨hbase, -, hv, hnull⟩ := hq
    cases base <;> first | exact neutral_tracks _ | skip
    next a =>
    obtain ⟨c, hc⟩ := hbase.has
    refine (Tracks.claim _ _).bind fun _ m₁ h₁ _ => (indexOf_tracks _).bind fun index m₂ h₂ _ =>
      fun m₃ w h₃ hw => ?_
    have hk := h₁.kinds.trans (h₂.kinds.trans h₃.kinds)
    have hc₃ := Kinds.getElem?_of_prefix hk hc
    show R.Ends m₃ _ ((place index (w.heap.array a).2.length >>= fun i =>
      if (w.heap.typeOf? v).all (w.heap.lineage.assignable (w.heap.array a).1) then
        Action.setCells (w.heap.put a (.array (w.heap.array a).1 ((w.heap.array a).2.set i v)))
      else Action.fail
        (Coercion.refusal w.heap v (w.heap.lineage.typeName (w.heap.array a).1))) w)
    rw [hw.heap, m₃.grounded.array_component hc₃]
    refine place_bind_ends hw index _ fun i => ?_
    split
    · next htype =>
      have takes : m₃.heap.Takes c v := takes_of_all htype fun he => hnull a c rfl hc he
      obtain ⟨m₄, hc, hh⟩ := m₃.putElement_reached hc₃ i (hv.mono hk) takes
      exact hw.setCells (.single hc) hh
    · exact hw.fails _
  | readOnly base property =>
    cases base <;> first | exact neutral_tracks _ | skip
    exact (Tracks.claim _ _).bind fun _ _ _ _ => (indexOf_tracks _).bind fun _ _ _ _ =>
      .heap_bind fun _ _ => (place_tracks _ _).bind fun _ _ _ _ => .pure_any _
  | invoke base method types args => exact neutral_tracks _
  | convert v t => exact neutral_tracks _

/-! ## Objects -/

section Objects

variable {handle : Handler} (hs : R.Sound handle)
include hs

theorem callBest_tracks {owner name : String} {methods : List Method}
    (hmethods : ∀ f ∈ methods, R.host.classes.Declares f) (types : Option (List TypeRef))
    {self : Value} {args : List Value} (hself : m.Knows self) (hargs : m.KnowsAll args) :
    R.Tracks m (callBest R.host handle owner methods name types self args) Memory.Knows := by
  refine .heap_bind fun m₁ h₁ => ?_
  refine (Tracks.ofExcept (P := fun _ f => R.host.classes.Declares f) fun _ _ f hf =>
    hmethods f (Overload.mem_of_find hf)).bind fun f m₂ h₂ hf => ?_
  exact Regime.invoke_tracks hs hf (hself.mono (h₁.kinds.trans h₂.kinds))
    (Value.grounded_all_mono hargs (h₁.kinds.trans h₂.kinds))

theorem statics_tracks (hq : q.Grounded m) : R.Tracks m (statics R.host handle q) q.Yields := by
  cases q with
  | get base property =>
    cases base <;> first | exact neutral_tracks _ | skip
    refine .heap_bind fun m₁ h₁ => (Tracks.ofExcept_any _).bind fun name m₂ h₂ _ => .ite ?_ ?_
    · exact (Tracks.claim _ _).bind fun _ m₃ h₃ _ =>
        .pure_value (hq.1.mono (h₁.kinds.trans (h₂.kinds.trans h₃.kinds)))
    · split
      · next c f hf =>
        refine (Tracks.claim _ _).bind fun _ m₃ h₃ _ => fun m₄ w h₄ hw => ?_
        exact hw.ends (hw.fields _ f (List.mem_of_find?_eq_some hf))
      · exact .pure_value Value.grounded_null
  | type base property =>
    cases base <;> first | exact neutral_tracks _ | skip
    refine .heap_bind fun m₁ h₁ => (Tracks.ofExcept_any _).bind fun name m₂ h₂ _ => ?_
    split
    · exact (Tracks.claim _ _).bind fun _ _ _ _ => .pure_any _
    · exact .pure_any _
  | set base property v =>
    cases base <;> first | exact neutral_tracks _ | skip
    exact .heap_bind fun m₁ h₁ => (Tracks.ofExcept_any _).bind fun name m₂ h₂ _ =>
      .ite ((Tracks.claim _ _).bind fun _ _ _ _ => .fail _) (.pure_any _)
  | readOnly base property =>
    cases base <;> first | exact neutral_tracks _ | skip
    refine .heap_bind fun m₁ h₁ => (Tracks.ofExcept_any _).bind fun name m₂ h₂ _ => ?_
    exact .ite ((Tracks.claim _ _).bind fun _ _ _ _ => .pure_any _) (.pure_any _)
  | invoke base method types args =>
    obtain ⟨-, -, hargs⟩ := hq
    cases base <;> first | exact neutral_tracks _ | skip
    refine .heap_bind fun m₁ h₁ => (Tracks.ofExcept_any _).bind fun name m₂ h₂ _ => ?_
    refine .ite (.pure_value Value.grounded_null) ?_
    refine (Tracks.claim _ _).bind fun _ m₃ h₃ _ => ?_
    refine callBest_tracks hs (fun f hf => ?_) types Value.grounded_null
      (Value.grounded_all_mono hargs (h₁.kinds.trans (h₂.kinds.trans h₃.kinds)))
    split at hf
    · exact ⟨_, .inr hf⟩
    · exact ClassTable.declares_of_mem_allMethods (List.mem_filter.mp hf).1
  | convert v t => exact neutral_tracks _

theorem records_tracks (hq : q.Grounded m) : R.Tracks m (records R.host handle q) q.Yields := by
  cases q with
  | get base property =>
    refine .heap_bind fun m₁ h₁ => ?_
    split
    · exact .pure_value Value.grounded_null
    · refine (Tracks.claim _ _).bind fun _ m₂ h₂ _ => (Tracks.ofExcept_any _).bind
        fun name m₃ h₃ _ => ?_
      dsimp only
      split
      · next hreader =>
        have hf := List.mem_of_find?_eq_some hreader
        exact Regime.run_tracks hs (ClassTable.declares_of_mem_allMethods hf)
          (hq.1.mono (h₁.kinds.trans (h₂.kinds.trans h₃.kinds))) nofun
      · exact .fail _
  | type base property =>
    refine .heap_bind fun m₁ h₁ => ?_
    split
    · exact (Tracks.claim _ _).bind fun _ _ _ _ => .pure_any _
    · exact .pure_any _
  | set base property v =>
    refine .heap_bind fun m₁ h₁ => ?_
    split
    · exact .pure_any _
    · exact (Tracks.claim _ _).bind fun _ _ _ _ => (Tracks.ofExcept_any _).bind fun _ _ _ _ =>
        .ite (.fail _) (.fail _)
  | readOnly base property =>
    refine .heap_bind fun m₁ h₁ => ?_
    split
    · exact (Tracks.claim _ _).bind fun _ _ _ _ => .pure_any _
    · exact .pure_any _
  | invoke base method types args => exact neutral_tracks _
  | convert v t => exact neutral_tracks _

omit hs in
theorem target?_tracks (base property : Value) : R.Tracks m (target? base property) Memory.Any := by
  refine .heap_bind fun m₁ _ => ?_
  split
  · exact .pure_any _
  · exact (Tracks.ofExcept_any _).bind fun _ _ _ _ => .pure_any _

omit hs in
/-- The methods of a property that is found are declared. -/
theorem property_tracks {h : Heap} {c : ClassId} {name : String} :
    R.Tracks m (Action.ofExcept (property h (.ofClass R.host.classes c) name)) fun _ p =>
      ∀ f, p.reader = some f ∨ p.writer = some f → R.host.classes.Declares f := by
  refine .ofExcept fun _ _ p hp f hf => ?_
  simp only [property] at hp
  split at hp
  · next hfind =>
    cases hp
    exact BeanProperties.declares_of_ofClass hfind hf
  · cases hp

theorem beans_tracks (readOnly : Bool) (hq : q.Grounded m) :
    R.Tracks m (beans R.host handle readOnly q) q.Yields := by
  cases q with
  | get base property =>
    refine (target?_tracks base property).bind fun found m₁ h₁ _ => ?_
    rcases found with _ | ⟨c, name⟩
    · exact .pure_value Value.grounded_null
    · refine (Tracks.claim _ _).bind fun _ m₂ h₂ _ => .heap_bind fun m₃ h₃ =>
        property_tracks.bind fun p m₄ h₄ hp => ?_
      have hk := h₁.kinds.trans (h₂.kinds.trans (h₃.kinds.trans h₄.kinds))
      cases hf : p.reader with
      | some f => exact Regime.run_tracks hs (hp f (.inl hf)) (hq.1.mono hk) nofun
      | none => exact .fail _
  | type base property =>
    refine (target?_tracks base property).bind fun found m₁ h₁ _ => ?_
    rcases found with _ | ⟨c, name⟩
    · exact .pure_any _
    · exact (Tracks.claim _ _).bind fun _ _ _ _ => .heap_bind fun _ _ =>
        property_tracks.bind fun _ _ _ _ => .pure_any _
  | set base property v =>
    obtain ⟨hbase, -, hv, -⟩ := hq
    refine (target?_tracks base property).bind fun found m₁ h₁ _ => ?_
    rcases found with _ | ⟨c, name⟩
    · exact .pure_any _
    · refine (Tracks.claim _ _).bind fun _ m₂ h₂ _ => .ite (.fail _) <| .heap_bind fun m₃ h₃ =>
        property_tracks.bind fun p m₄ h₄ hp => ?_
      have hk := h₁.kinds.trans (h₂.kinds.trans (h₃.kinds.trans h₄.kinds))
      cases hf : p.writer with
      | some f =>
        exact (Regime.invoke_tracks hs (hp f (.inr hf)) (hbase.mono hk)
          (List.forall_mem_singleton.mpr (hv.mono hk))).bind fun _ _ _ _ => .pure_any _
      | none => exact .fail _
  | readOnly base property =>
    refine (target?_tracks base property).bind fun found m₁ h₁ _ => ?_
    rcases found with _ | ⟨c, name⟩
    · exact .pure_any _
    · exact (Tracks.claim _ _).bind fun _ _ _ _ => .ite (.pure_any _) <| .heap_bind fun _ _ =>
        property_tracks.bind fun _ _ _ _ => .pure_any _
  | invoke base method types args =>
    obtain ⟨hbase, -, hargs⟩ := hq
    refine (target?_tracks base method).bind fun found m₁ h₁ _ => ?_
    rcases found with _ | ⟨c, name⟩
    · exact .pure_value Value.grounded_null
    · refine (Tracks.claim _ _).bind fun _ m₂ h₂ _ => .heap_bind fun m₃ h₃ => ?_
      have hk := h₁.kinds.trans (h₂.kinds.trans h₃.kinds)
      exact callBest_tracks hs (fun f hf => ClassTable.declares_of_mem_allMethods hf) types
        (hbase.mono hk) (Value.grounded_all_mono hargs hk)
  | convert v t => exact neutral_tracks _

/-! ## Requests -/

omit hs in
theorem grounded_later {m' : Memory} (hq : q.Grounded m) (hk : m.kinds <+: m'.kinds) :
    q.Grounded m' := by
  cases q with
  | get | type | readOnly => exact ⟨hq.1.mono hk, hq.2.mono hk⟩
  | set base property v =>
    obtain ⟨hbase, hproperty, hv, hnull⟩ := hq
    refine ⟨hbase.mono hk, hproperty.mono hk, hv.mono hk, ?_⟩
    rintro a c rfl hc hv
    -- The cell has the kind that it had.
    obtain ⟨d, hd⟩ := hbase.has
    have hsame := Kinds.getElem?_of_prefix hk hd
    rw [hc] at hsame
    cases hsame
    exact hnull a c rfl hd hv
  | invoke => exact ⟨hq.1.mono hk, hq.2.1.mono hk, Value.grounded_all_mono hq.2.2 hk⟩
  | convert => exact Value.Grounded.mono hq hk

theorem ask_tracks (hq : q.Grounded m) :
    ∀ r ∈ (Layout.standard [] R.readOnlyBeans).resolvers,
      R.Tracks m (r.ask (answer R.host handle) q) q.Yields := by
  simp only [Layout.resolvers, List.forall_mem_cons, List.not_mem_nil, false_imp_iff,
    implies_true, and_true, Resolver.ask]
  refine ⟨names_tracks _ hq, ?_, statics_tracks hs hq, maps_tracks hq, lists_tracks hq,
    arrays_tracks hq, records_tracks hs hq, beans_tracks hs _ hq⟩
  exact (Tracks.setResolved false).bind fun _ _ _ _ =>
    .askAll (fun m' _ => yields_neutral q m') (fun _ hr => absurd hr List.not_mem_nil)
      (lasting_yields q)

theorem resolve_tracks (hq : q.Grounded m) : R.Tracks m (resolve R.host handle q) q.Yields := by
  refine Tracks.chain (fun m₁ h₁ => ?_)
  exact .askAll (fun m' _ => yields_neutral q m') (ask_tracks hs (grounded_later hq h₁.kinds))
    (lasting_yields q)

theorem require_tracks (base property : Value) (hq : q.Grounded m) :
    R.Tracks m (require R.host handle base property q) q.Yields :=
  (resolve_tracks hs hq).bind fun a m₁ _ ha => Tracks.isResolved.bind fun _ _ h₂ _ =>
    .ite (.pure fun m₃ h₃ => lasting_yields q a m₁ m₃ (h₂.trans h₃) ha)
      (.heap_bind fun _ _ => .fail _)

theorem get_tracks {base property : Value} (hbase : m.Knows base) (hproperty : m.Knows property) :
    R.Tracks m (get R.host handle base property) Memory.Knows :=
  require_tracks hs base property (q := .get base property) ⟨hbase, hproperty⟩

theorem type_tracks {base property : Value} (hbase : m.Knows base) (hproperty : m.Knows property) :
    R.Tracks m (type R.host handle base property) Memory.Any :=
  require_tracks hs base property (q := .type base property) ⟨hbase, hproperty⟩

theorem readOnly_tracks {base property : Value} (hbase : m.Knows base)
    (hproperty : m.Knows property) :
    R.Tracks m (readOnly R.host handle base property) Memory.Any :=
  require_tracks hs base property (q := .readOnly base property) ⟨hbase, hproperty⟩

theorem set_tracks {base property v : Value} (hq : (Request.set base property v).Grounded m) :
    R.Tracks m (set R.host handle base property v) Memory.Any :=
  require_tracks hs base property hq

theorem invoke_tracks {base method : Value} (types : Option (List TypeRef)) {args : List Value}
    (hbase : m.Knows base) (hmethod : m.Knows method) (hargs : m.KnowsAll args) :
    R.Tracks m (invoke R.host handle base method types args) Memory.Knows :=
  (resolve_tracks hs (q := .invoke base method types args) ⟨hbase, hmethod, hargs⟩).bind
    fun a m₁ _ ha => Tracks.isResolved.bind fun _ _ h₂ _ =>
    .ite (.pure fun m₃ h₃ => lasting_knows a m₁ m₃ (h₂.trans h₃) ha)
      (.heap_bind fun _ _ => .fail _)

end Objects

end ExprLang.Resolution
