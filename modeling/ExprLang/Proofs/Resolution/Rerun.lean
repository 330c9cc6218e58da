import ExprLang.Proofs.Evaluation.Rerun

/-! What the standard chain has for a property, it has again in the second run. Code that reads a property
has to do so as well. -/

namespace ExprLang

variable {s : Rerun} {host : Host} {handle : Handler} {inStep : Bool} {n : Nat}
  {base property base' property' : Value}

/-- In the second run the method does to the value there what it does in the first run. -/
def Method.Repeatable (s : Rerun) (host : Host) (handle : Handler) (m : Method) : Prop :=
  ∀ n v w, s.Same n v w →
    s.Repeats true n (m.run host handle v []) (m.run host handle w []) s.Same

namespace Resolution

open Rerun (Same SameAll Repeats Agree Lasting lasting_same)

/-! ## Names of properties -/

theorem plainName?_moved (base property : Value) :
    plainName? (s.moved base) (s.moved property) = plainName? base property := by
  cases base with
  | null => cases property <;> rfl
  | _ => rfl

section Moved

variable {g h : Heap} (ht : s.memory.Twins s.distance g h)
include ht

theorem recordClass?_moved (base : Value) :
    recordClass? h (s.moved base) = recordClass? g base := by
  cases base with
  | object a => simp only [recordClass?, Value.rename_object, ht.renames.owner, ht.renames.lineage]
  | _ => rfl

omit ht in
/-- The value at a place, or null. -/
theorem item_same {vs : List Value} (hvs : ∀ v ∈ vs, v.Below n) (index : Int) :
    s.Same n (((place? index vs.length).bind (vs[·]?)).getD .null)
      (((place? index (vs.map s.moved).length).bind ((vs.map s.moved)[·]?)).getD .null) := by
  rw [List.length_map]
  cases place? index vs.length with
  | none => exact Rerun.same_of_isAtom rfl
  | some i =>
    simp only [Option.bind_some, List.getElem?_map]
    cases hi : vs[i]? with
    | none => exact Rerun.same_of_isAtom rfl
    | some v => exact ⟨hvs v (List.mem_of_getElem? hi), rfl⟩

/-- The value of a key, or null. -/
theorem lookup_same (a : Address) (key : Value) :
    s.Same g.cells.size ((g.lookup? (g.entries a) key).getD .null)
      ((h.lookup? (h.entries (s.memory.shifted s.distance a)) (s.moved key)).getD .null) := by
  rw [ht.renames.entries, ht.lookup?]
  cases hv : g.lookup? (g.entries a) key with
  | none => exact Rerun.same_of_isAtom rfl
  | some v =>
    obtain ⟨e, he, rfl⟩ := g.mem_of_lookup? hv
    exact ⟨(ht.closed.entries a e he).2, rfl⟩

end Moved

/-! ## Resolvers of values -/

section Resolvers

variable (hs : s.Standing host) (hb : s.Same n base base') (hp : s.Same n property property')
include hs hb hp

theorem names_repeats (store : Nat) :
    s.Repeats inStep n (names store (.get base property)) (names store (.get base' property'))
      s.Same := by
  have hknown : s.Repeats inStep n (knownName? store base property)
      (knownName? store base' property') Agree := by
    have hname : knownName? store base' property' = knownName? store base property := by
      simp only [knownName?, hb.eq, hp.eq, plainName?_moved]
    rw [hname]
    exact .context_bind fun _ _ => .pure_agree _
  refine hknown.bind ?_
  rintro m _ (_ | name) hm rfl
  · exact .pure_same (Rerun.same_of_isAtom rfl)
  · refine (Repeats.claim hs.listeners _ _ _ _).bind fun _ _ _ _ _ => .context_bind fun _ _ => ?_
    rw [Context.store_flagged, Context.store_flagged]
    refine .pure_known ?_
    cases hv : (s.context.store store).find? name with
    | none => exact Value.grounded_null
    | some v => exact hs.context.stores store (name, v) (Bindings.mem_of_find? hv)

theorem maps_repeats (readOnly : Bool) :
    s.Repeats inStep n (maps readOnly (.get base property)) (maps readOnly (.get base' property'))
      s.Same := by
  rw [hb.eq, hp.eq]
  cases base with
  | map a =>
    refine (Repeats.claim hs.listeners _ _ _ _).bind fun _ _ _ _ _ => .heap_bind fun g h ht _ => ?_
    exact .pure_same (lookup_same ht a property)
  | _ => exact .pure_same (Rerun.same_of_isAtom rfl)

omit hs hb in
theorem indexOf_repeats : s.Repeats inStep n (indexOf property) (indexOf property') Agree := by
  rw [hp.eq]
  refine .heap_bind fun g h ht _ => ?_
  refine (Repeats.ofExcept_agree ((ht.resembles property).toTarget Coercion.long)).bind ?_
  rintro _ _ index _ rfl
  exact .pure_agree _

theorem lists_repeats (readOnly : Bool) :
    s.Repeats inStep n (lists readOnly (.get base property))
      (lists readOnly (.get base' property')) s.Same := by
  have hindex (m : Nat) (hm : n ≤ m) :
      s.Repeats inStep m (indexOf property) (indexOf property') Agree := indexOf_repeats (hp.mono hm)
  rw [hb.eq]
  cases base with
  | list a =>
    refine (Repeats.claim hs.listeners _ _ _ _).bind fun m _ _ hm _ => (hindex m hm).bind ?_
    rintro _ _ index _ rfl
    refine .heap_bind fun g h ht _ => .pure_same ?_
    rw [ht.renames.items]
    exact item_same (ht.closed.items a) index
  | _ => exact .pure_same (Rerun.same_of_isAtom rfl)

theorem arrays_repeats (readOnly : Bool) :
    s.Repeats inStep n (arrays readOnly (.get base property))
      (arrays readOnly (.get base' property')) s.Same := by
  have hindex (m : Nat) (hm : n ≤ m) :
      s.Repeats inStep m (indexOf property) (indexOf property') Agree := indexOf_repeats (hp.mono hm)
  rw [hb.eq]
  cases base with
  | array a =>
    refine (Repeats.claim hs.listeners _ _ _ _).bind fun m _ _ hm _ => (hindex m hm).bind ?_
    rintro _ _ index _ rfl
    refine .heap_bind fun g h ht _ => .pure_same ?_
    rw [ht.renames.array]
    exact item_same (ht.closed.array_items a) index
  | _ => exact .pure_same (Rerun.same_of_isAtom rfl)

theorem statics_repeats (handle : Handler) :
    s.Repeats inStep n (statics host handle (.get base property))
      (statics host handle (.get base' property')) s.Same := by
  rw [hb.eq, hp.eq]
  cases base with
  | cls c =>
    refine .heap_bind fun g h ht hg => ?_
    refine (Repeats.ofExcept_agree (nameOf_resembles (ht.resembles property))).bind ?_
    rintro _ _ name _ rfl
    refine .ite ((Repeats.claim hs.listeners _ _ _ _).bind fun _ _ _ _ _ => ?_) ?_
    · exact .pure_same (Rerun.same_of_isAtom rfl)
    · cases hf : (host.classes.members c).field? name with
      | none => exact .pure_same (Rerun.same_of_isAtom rfl)
      | some f =>
        refine (Repeats.claim hs.listeners _ _ _ _).bind fun _ _ _ _ _ => ?_
        exact .pure_known (hs.fields c f (List.mem_of_find?_eq_some hf))
  | _ => exact .pure_same (Rerun.same_of_isAtom rfl)

/-! ## Getters -/

variable (hg : ∀ m, host.classes.Getter m → m.Repeatable s host handle)
include hg

theorem records_repeats :
    s.Repeats true n (records host handle (.get base property))
      (records host handle (.get base' property')) s.Same := by
  rw [hb.eq, hp.eq]
  refine .heap_bind fun g h ht hsize => ?_
  rw [recordClass?_moved ht]
  cases recordClass? g base with
  | none => exact .pure_same (Rerun.same_of_isAtom rfl)
  | some c =>
    refine (Repeats.claim hs.listeners _ _ _ _).bind fun k _ _ hk _ => ?_
    refine (Repeats.ofExcept_agree (nameOf_resembles (ht.resembles property))).bind ?_
    rintro k' _ name hk' rfl
    have hbase : s.Same k' base (s.moved base) := ⟨hb.below.mono (by omega), rfl⟩
    dsimp only
    cases hc : (host.classes.members c).component? name with
    | none =>
      rw [ht.renames.lineage]
      exact .fail _
    | some component =>
      cases hm : (host.classes.allMethods c).find? fun m =>
          m.name == name && m.params.isEmpty && !m.isStatic with
      | none =>
        rw [ht.renames.lineage]
        exact .fail _
      | some m => exact hg m (.component (by rw [hc]; rfl) hm) k' base _ hbase

omit hs hg in
theorem target?_repeats :
    s.Repeats inStep n (target? base property) (target? base' property') Agree := by
  rw [hb.eq, hp.eq]
  refine .heap_bind fun g h ht _ => ?_
  rw [ht.renames.classOf?]
  cases g.classOf? base with
  | none => exact .pure_agree _
  | some c =>
    refine (Repeats.ofExcept_agree (nameOf_resembles (ht.resembles property))).bind ?_
    rintro _ _ name _ rfl
    exact .pure_agree _

omit hs hb hp hg in
/-- The property of a name, which is one that is found. -/
theorem property_repeats {g h : Heap} (hl : h.lineage = g.lineage) (p : BeanProperties)
    (name : String) :
    s.Repeats inStep n (Action.ofExcept (Resolution.property g p name))
      (Action.ofExcept (Resolution.property h p name))
      fun _ a b => b = a ∧ p.find? name = some a := by
  simp only [Resolution.property, hl]
  cases p.find? name with
  | none => exact .fail _
  | some q => exact .pure fun _ _ => ⟨rfl, rfl⟩

theorem beans_repeats (readOnly : Bool) :
    s.Repeats true n (beans host handle readOnly (.get base property))
      (beans host handle readOnly (.get base' property')) s.Same := by
  refine (target?_repeats hb hp).bind ?_
  rintro k _ (_ | ⟨c, name⟩) hk rfl
  · exact .pure_same (Rerun.same_of_isAtom rfl)
  · refine (Repeats.claim hs.listeners _ _ _ _).bind fun k₁ _ _ hk₁ _ =>
      .heap_bind fun g h ht hsize => (property_repeats ht.renames.lineage _ _).bind ?_
    rintro k₂ _ q hk₂ ⟨rfl, hq⟩
    cases hm : q.reader with
    | none =>
      rw [ht.renames.lineage]
      exact .fail _
    | some m => exact hg m (.property hq hm) k₂ base base' (hb.mono (by omega))

/-! ## The chain -/

theorem ask_repeats (readOnly : Bool) :
    ∀ k ∈ (Layout.standard [] readOnly).resolvers,
      s.Repeats true n (k.ask (answer host handle) (.get base property))
        (k.ask (answer host handle) (.get base' property')) s.Same := by
  simp only [Layout.resolvers, List.forall_mem_cons, List.not_mem_nil, false_imp_iff,
    implies_true, and_true, Resolver.ask]
  refine ⟨names_repeats hs hb hp _, ?_, statics_repeats hs hb hp handle, maps_repeats hs hb hp false,
    lists_repeats hs hb hp false, arrays_repeats hs hb hp false, records_repeats hs hb hp hg,
    beans_repeats hs hb hp hg _⟩
  -- The group in the middle has no members.
  refine (Repeats.setResolved false).bind fun _ _ _ _ _ => .askAll lasting_same ?_
    (List.forall_mem_nil _)
  exact fun _ _ => Rerun.same_of_isAtom rfl

/-- Both runs go on alike with what the chain has. -/
theorem resolve_bind {α : Type} {f f' : Value → Action α} {r : Nat → α → α → Prop}
    (hf : ∀ m v w, n ≤ m → s.Same m v w → s.Repeats true m (f v) (f' w) r) :
    s.Repeats inStep n (resolve host handle (.get base property) >>= f)
      (resolve host handle (.get base' property') >>= f') r := by
  obtain ⟨readOnly, hl⟩ := hs.layout
  refine .askChain_bind hl (.bind (.askAll lasting_same ?_ (ask_repeats hs hb hp hg readOnly)) hf)
  exact fun _ _ => Rerun.same_of_isAtom rfl

theorem get_repeats :
    s.Repeats inStep n (get host handle base property) (get host handle base' property')
      s.Same := by
  refine resolve_bind hs hb hp hg fun m v w hm hv => Repeats.isResolved.bind ?_
  rintro m' _ claimed hm' rfl
  refine .ite (.pure_same (hv.mono hm')) (.heap_bind fun g h ht _ => ?_)
  have hbase : g.Resembles h base base' := hb.eq ▸ ht.resembles base
  have hproperty : g.Resembles h property property' := hp.eq ▸ ht.resembles property
  have hfault : unclaimed h base' property' = unclaimed g base property := by
    simp only [unclaimed, hbase.isNull, hproperty.display, hbase.typeName]
  rw [hfault]
  exact .fail _

end Resolvers

end Resolution

end ExprLang
