import ExprLang.Proofs.Evaluation.Simulation

/-! Every resolver answers alike requests alike. -/

namespace ExprLang.Resolution

open ExprLang.Action (Sim)

variable {α : Type} {t : ClassTable} {r : α → α → Prop} {q q' : Request α} {v w : Value}

/-! ## Names -/

theorem plainName?_eq {b c p p' : Value} (hb : Value.Alike t b c) (hp : Value.Alike t p p') :
    plainName? b p = plainName? c p' := by
  cases hb with
  | lambda _ _ => rfl
  | same => cases hp <;> cases b <;> rfl

theorem nameOf_eq {h k : Heap} (hh : Heap.Alike t h k) (hv : Value.Alike t v w) :
    nameOf h v = nameOf k w :=
  nameOf_resembles (hh.resembles hv)

theorem knownName?_sim (store : Nat) {b c p p' : Value} (hb : Value.Alike t b c)
    (hp : Value.Alike t p p') :
    Sim t Eq (knownName? store b p) (knownName? store c p') :=
  .bind .context fun d e hde => .pure (by
    rw [plainName?_eq hb hp, funext fun n => (hde.store store).contains n])

theorem names_sim (store : Nat) (h : Request.Alike t r q q') :
    Sim t r (names store q) (names store q') := by
  cases h with
  | get hb hp =>
    refine .bind (knownName?_sim store hb hp) fun name _ hn => ?_
    subst hn
    cases name with
    | none => exact .pure (.same _)
    | some name =>
      refine .bind (.claim hb hp) fun _ _ _ => .bind .context fun c d hcd => .pure ?_
      exact getD_alike ((hcd.store store).find? name)
  | type hb hp =>
    refine .bind (knownName?_sim store hb hp) fun name _ hn => ?_
    subst hn
    cases name with
    | none => exact .pure rfl
    | some name => exact .bind (.claim hb hp) fun _ _ _ => .pure rfl
  | set hb hp hv =>
    simp only [names, plainName?_eq hb hp]
    split
    · exact .pure rfl
    · next name _ =>
      exact .bind (.claim hb hp) fun _ _ _ => .modifyContext fun c d hcd =>
        hcd.setStore store ((hcd.store store).insert name hv)
  | readOnly hb hp =>
    refine .bind (knownName?_sim store hb hp) fun name _ hn => ?_
    subst hn
    cases name with
    | none => exact .pure rfl
    | some name => exact .bind (.claim hb hp) fun _ _ _ => .pure rfl
  | invoke types _ _ _ => exact .pure (.same _)
  | convert type _ => exact .pure (.same _)

/-! ## Maps -/

theorem maps_sim (readOnly : Bool) (h : Request.Alike t r q q') :
    Sim t r (maps readOnly q) (maps readOnly q') := by
  cases h with
  | @get b c p p' hb hp =>
    cases hb with
    | lambda _ _ => exact .pure (.same _)
    | same =>
      cases b <;> first | exact .pure (.same _) | skip
      exact .bind (.claim (.same _) hp) fun _ _ _ => .bind .heap fun h k hh =>
        .pure (getD_alike (hh.lookup? (hh.entries _) hp))
  | @type b c p p' hb hp =>
    cases hb with
    | lambda _ _ => exact .pure rfl
    | same =>
      cases b <;> first | exact .pure rfl | skip
      exact .bind (.claim (.same _) hp) fun _ _ _ => .pure rfl
  | @set b c p p' v w hb hp hv =>
    cases hb with
    | lambda _ _ => exact .pure rfl
    | same =>
      cases b <;> first | exact .pure rfl | skip
      refine .bind (.claim (.same _) hp) fun _ _ _ => .bind .heap fun h k hh => ?_
      rw [hh.display hp]
      exact .ite_eq rfl (.fail _) (.setCells (hh.put _ (.entries (hh.putEntry (hh.entries _) hp hv))))
  | @readOnly b c p p' hb hp =>
    cases hb with
    | lambda _ _ => exact .pure rfl
    | same =>
      cases b <;> first | exact .pure rfl | skip
      exact .bind (.claim (.same _) hp) fun _ _ _ => .pure rfl
  | invoke types _ _ _ => exact .pure (.same _)
  | convert type _ => exact .pure (.same _)

/-! ## Lists and arrays -/

theorem indexOf_sim (hv : Value.Alike t v w) : Sim t Eq (indexOf v) (indexOf w) := by
  refine .bind .heap fun h k hh => ?_
  rw [(hh.resembles hv).toTarget]
  exact .bind (.ofExcept_eq rfl) fun _ _ hab => .pure (by rw [hab])

theorem place_sim (index : Int) {m n : Nat} (hmn : m = n) :
    Sim t Eq (place index m) (place index n) := by
  subst hmn
  unfold place
  split
  · exact .pure rfl
  · exact .fail _

/-- The item at a place, if there is one. -/
theorem item_alike {vs ws : List Value} (hvs : List.Forall₂ (Value.Alike t) vs ws) (index : Int) :
    Value.Alike t (((place? index vs.length).bind (vs[·]?)).getD .null)
      (((place? index ws.length).bind (ws[·]?)).getD .null) := by
  rw [hvs.length_eq]
  cases place? index ws.length with
  | none => exact .same _
  | some i => exact getD_alike (getElem?_of_forall₂ hvs i)

theorem lists_sim (readOnly : Bool) (h : Request.Alike t r q q') :
    Sim t r (lists readOnly q) (lists readOnly q') := by
  cases h with
  | @get b c p p' hb hp =>
    cases hb with
    | lambda _ _ => exact .pure (.same _)
    | same =>
      cases b <;> first | exact .pure (.same _) | skip
      refine .bind (.claim (.same _) hp) fun _ _ _ => .bind (indexOf_sim hp) fun i j hij =>
        .bind .heap fun h k hh => .pure ?_
      rw [hij]
      exact item_alike (hh.items _) j
  | @type b c p p' hb hp =>
    cases hb with
    | lambda _ _ => exact .pure rfl
    | same =>
      cases b <;> first | exact .pure rfl | skip
      refine .bind (.claim (.same _) hp) fun _ _ _ => .bind (indexOf_sim hp) fun i j hij =>
        .bind .heap fun h k hh => ?_
      rw [hij]
      exact .bind (place_sim j (hh.items _).length_eq) fun _ _ _ => .pure rfl
  | @set b c p p' v w hb hp hv =>
    cases hb with
    | lambda _ _ => exact .pure rfl
    | same =>
      cases b <;> first | exact .pure rfl | skip
      refine .bind (.claim (.same _) hp) fun _ _ _ => .ite_eq rfl (.fail _) <|
        .bind (indexOf_sim hp) fun i j hij => .bind .heap fun h k hh => ?_
      rw [hij]
      refine .bind (place_sim j (hh.items _).length_eq) fun m n hmn => ?_
      rw [hmn]
      exact .setCells (hh.put _ (.items (set_of_forall₂ (hh.items _) n hv)))
  | @readOnly b c p p' hb hp =>
    cases hb with
    | lambda _ _ => exact .pure rfl
    | same =>
      cases b <;> first | exact .pure rfl | skip
      refine .bind (.claim (.same _) hp) fun _ _ _ => .bind (indexOf_sim hp) fun i j hij =>
        .bind .heap fun h k hh => ?_
      rw [hij]
      exact .bind (place_sim j (hh.items _).length_eq) fun _ _ _ => .pure rfl
  | invoke types _ _ _ => exact .pure (.same _)
  | convert type _ => exact .pure (.same _)

/-- Storing an item of an array, where the array takes it. -/
theorem storeItem_sim {h k : Heap} (hh : Heap.Alike t h k) (a : Address) (i : Nat)
    (hv : Value.Alike t v w) :
    Sim t Eq
      (if (h.typeOf? v).all (h.lineage.assignable (h.array a).1) then
        Action.setCells (h.put a (.array (h.array a).1 ((h.array a).2.set i v)))
      else Action.fail (Coercion.refusal h v (h.lineage.typeName (h.array a).1)))
      (if (k.typeOf? w).all (k.lineage.assignable (k.array a).1) then
        Action.setCells (k.put a (.array (k.array a).1 ((k.array a).2.set i w)))
      else Action.fail (Coercion.refusal k w (k.lineage.typeName (k.array a).1))) := by
  rw [(hh.array a).1, hh.lineage, hh.typeOf? hv, (hh.resembles hv).refusal]
  exact .ite_eq rfl (.setCells (hh.put a (.array (set_of_forall₂ (hh.array a).2 i hv)))) (.fail _)

theorem arrays_sim (readOnly : Bool) (h : Request.Alike t r q q') :
    Sim t r (arrays readOnly q) (arrays readOnly q') := by
  cases h with
  | @get b c p p' hb hp =>
    cases hb with
    | lambda _ _ => exact .pure (.same _)
    | same =>
      cases b <;> first | exact .pure (.same _) | skip
      refine .bind (.claim (.same _) hp) fun _ _ _ => .bind (indexOf_sim hp) fun i j hij =>
        .bind .heap fun h k hh => .pure ?_
      rw [hij]
      exact item_alike (hh.array _).2 j
  | @type b c p p' hb hp =>
    cases hb with
    | lambda _ _ => exact .pure rfl
    | same =>
      cases b <;> first | exact .pure rfl | skip
      refine .bind (.claim (.same _) hp) fun _ _ _ => .bind (indexOf_sim hp) fun i j hij =>
        .bind .heap fun h k hh => ?_
      rw [hij]
      exact .bind (place_sim j (hh.array _).2.length_eq) fun _ _ _ =>
        .pure (congrArg some (hh.array _).1)
  | @set b c p p' v w hb hp hv =>
    cases hb with
    | lambda _ _ => exact .pure rfl
    | same =>
      cases b <;> first | exact .pure rfl | skip
      refine .bind (.claim (.same _) hp) fun _ _ _ => .ite_eq rfl (.fail _) <|
        .bind (indexOf_sim hp) fun i j hij => .bind .heap fun h k hh => ?_
      rw [hij]
      exact .bind (place_sim j (hh.array _).2.length_eq) fun m n hmn => by
        rw [hmn]
        exact storeItem_sim hh _ n hv
  | @readOnly b c p p' hb hp =>
    cases hb with
    | lambda _ _ => exact .pure rfl
    | same =>
      cases b <;> first | exact .pure rfl | skip
      refine .bind (.claim (.same _) hp) fun _ _ _ => .bind (indexOf_sim hp) fun i j hij =>
        .bind .heap fun h k hh => ?_
      rw [hij]
      exact .bind (place_sim j (hh.array _).2.length_eq) fun _ _ _ => .pure rfl
  | invoke types _ _ _ => exact .pure (.same _)
  | convert type _ => exact .pure (.same _)

/-! ## Overloads -/

theorem fit?_eq {h k : Heap} (hh : Heap.Alike t h k) (hv : Value.Alike t v w) (type : TypeRef) :
    Overload.fit? h type v = Overload.fit? k type w := by
  have hfits : Coercion.fits h type v = Coercion.fits k type w := by
    simp only [Coercion.fits]
    have hr := hh.toType hv type
    generalize Coercion.toType h type v = x at hr
    generalize Coercion.toType k type w = y at hr
    cases hr <;> rfl
  simp only [Overload.fit?, hh.typeOf? hv, hh.lineage, hfits]

theorem scoreAll_eq {h k : Heap} (hh : Heap.Alike t h k) {vs ws : List Value}
    (hvs : List.Forall₂ (Value.Alike t) vs ws) (s : Score) (types : List TypeRef) :
    Overload.scoreAll h s types vs = Overload.scoreAll k s types ws := by
  induction hvs generalizing s types with
  | nil => cases types <;> rfl
  | cons hv _ ih =>
    cases types with
    | nil => rfl
    | cons type types => simp only [Overload.scoreAll, fit?_eq hh hv, ih]

theorem find_eq {h k : Heap} (hh : Heap.Alike t h k) {vs ws : List Value}
    (hvs : List.Forall₂ (Value.Alike t) vs ws) (owner : String) (methods : List Method)
    (name : String) (types : Option (List TypeRef)) :
    Overload.find h owner methods name types vs = Overload.find k owner methods name types ws := by
  have hcall : Overload.callText h owner name vs = Overload.callText k owner name ws := by
    simp only [Overload.callText, map_eq_of_forall₂ (fun _ _ hv => hh.typeName hv) hvs]
  have hfixed (m : Method) : Overload.scoreFixed h m vs = Overload.scoreFixed k m ws :=
    scoreAll_eq hh hvs _ _
  have hgathering (m : Method) : Overload.scoreGathering h m vs = Overload.scoreGathering k m ws := by
    simp only [Overload.scoreGathering, hvs.length_eq, scoreAll_eq hh hvs]
  simp only [Overload.find, hcall, hfixed, hgathering, hh.lineage]

/-! ## Objects -/

section Objects
variable {host : Host} {handle : Handler} (hf : Faithful host handle)
include hf

theorem callBest_sim {owner name : String} {methods : List Method}
    (hm : ∀ m ∈ methods, host.classes.Declares m) (types : Option (List TypeRef)) {v w : Value}
    {vs ws : List Value} (hv : Value.Alike host.classes v w)
    (hvs : List.Forall₂ (Value.Alike host.classes) vs ws) :
    Sim host.classes (Value.Alike host.classes)
      (callBest host handle owner methods name types v vs)
      (callBest host handle owner methods name types w ws) := by
  refine .bind .heap fun h k hh => ?_
  rw [find_eq hh hvs]
  exact .bind (.ofExcept_self _) fun m _ ⟨he, hfind⟩ =>
    he ▸ method_invoke_sim hf (hm m (Overload.mem_of_find hfind)) hv hvs

variable {r : α → α → Prop} {q q' : Request α}

theorem statics_sim (h : Request.Alike host.classes r q q') :
    Sim host.classes r (statics host handle q) (statics host handle q') := by
  cases h with
  | @get b c p p' hb hp =>
    cases hb with
    | lambda _ _ => exact .pure (.same _)
    | same =>
      cases b <;> first | exact .pure (.same _) | skip
      refine .bind .heap fun h k hh => ?_
      rw [nameOf_eq hh hp]
      refine .bind (.ofExcept_eq rfl) fun name _ hn => ?_
      subst hn
      refine .ite_eq rfl (.bind (.claim (.same _) hp) fun _ _ _ => .pure (.same _)) ?_
      split
      · exact .bind (.claim (.same _) hp) fun _ _ _ => .pure (.same _)
      · exact .pure (.same _)
  | @type b c p p' hb hp =>
    cases hb with
    | lambda _ _ => exact .pure rfl
    | same =>
      cases b <;> first | exact .pure rfl | skip
      refine .bind .heap fun h k hh => ?_
      rw [nameOf_eq hh hp]
      refine .bind (.ofExcept_eq rfl) fun name _ hn => ?_
      subst hn
      split
      · exact .bind (.claim (.same _) hp) fun _ _ _ => .pure rfl
      · exact .pure rfl
  | @set b c p p' v w hb hp hv =>
    cases hb with
    | lambda _ _ => exact .pure rfl
    | same =>
      cases b <;> first | exact .pure rfl | skip
      refine .bind .heap fun h k hh => ?_
      rw [nameOf_eq hh hp, hh.lineage]
      refine .bind (.ofExcept_eq rfl) fun name _ hn => ?_
      subst hn
      exact .ite_eq rfl (.bind (.claim (.same _) hp) fun _ _ _ => .fail _) (.pure rfl)
  | @readOnly b c p p' hb hp =>
    cases hb with
    | lambda _ _ => exact .pure rfl
    | same =>
      cases b <;> first | exact .pure rfl | skip
      refine .bind .heap fun h k hh => ?_
      rw [nameOf_eq hh hp]
      refine .bind (.ofExcept_eq rfl) fun name _ hn => ?_
      subst hn
      split
      · exact .bind (.claim (.same _) hp) fun _ _ _ => .pure rfl
      · exact .pure rfl
  | @invoke b c m n types vs ws hb hm hvs =>
    cases hb with
    | lambda _ _ => exact .pure (.same _)
    | same =>
      cases b <;> first | exact .pure (.same _) | skip
      refine .bind .heap fun h k hh => ?_
      rw [nameOf_eq hh hm, hh.lineage]
      refine .bind (.ofExcept_eq rfl) fun name _ hn => ?_
      subst hn
      refine .ite_eq rfl (.pure (.same _)) (.bind (.claim (.same _) hm) fun _ _ _ =>
        callBest_sim hf (fun m hmem => ?_) types (.same _) hvs)
      split at hmem
      · exact ⟨_, .inr hmem⟩
      · exact ClassTable.declares_of_mem_allMethods (List.mem_filter.mp hmem).1
  | convert type _ => exact .pure (.same _)

omit hf in
theorem recordClass?_eq {h k : Heap} (hh : Heap.Alike t h k) (hv : Value.Alike t v w) :
    recordClass? h v = recordClass? k w := by
  cases hv with
  | lambda _ _ => rfl
  | same => cases v <;> first | rfl | simp only [recordClass?, hh.owner, hh.lineage]

theorem records_sim (h : Request.Alike host.classes r q q') :
    Sim host.classes r (records host handle q) (records host handle q') := by
  cases h with
  | get hb hp =>
    refine .bind .heap fun h k hh => ?_
    rw [recordClass?_eq hh hb, nameOf_eq hh hp, hh.lineage]
    split
    · exact .pure (.same _)
    · refine .bind (.claim hb hp) fun _ _ _ => .bind (.ofExcept_eq rfl) fun name _ hn => ?_
      subst hn
      dsimp only
      split
      · next hreader =>
        have hm := List.mem_of_find?_eq_some hreader
        exact method_run_sim hf (ClassTable.declares_of_mem_allMethods hm) hb .nil
      · exact .fail _
  | type hb hp =>
    refine .bind .heap fun h k hh => ?_
    rw [recordClass?_eq hh hb]
    split
    · exact .bind (.claim hb hp) fun _ _ _ => .pure rfl
    · exact .pure rfl
  | set hb hp hv =>
    refine .bind .heap fun h k hh => ?_
    rw [recordClass?_eq hh hb, nameOf_eq hh hp, hh.lineage]
    split
    · exact .pure rfl
    · refine .bind (.claim hb hp) fun _ _ _ => .bind (.ofExcept_eq rfl) fun name _ hn => ?_
      subst hn
      exact .ite_eq rfl (.fail _) (.fail _)
  | readOnly hb hp =>
    refine .bind .heap fun h k hh => ?_
    rw [recordClass?_eq hh hb]
    split
    · exact .bind (.claim hb hp) fun _ _ _ => .pure rfl
    · exact .pure rfl
  | invoke types _ _ _ => exact .pure (.same _)
  | convert type _ => exact .pure (.same _)

omit hf in
theorem target?_sim {p p' : Value} (hv : Value.Alike t v w) (hp : Value.Alike t p p') :
    Sim t Eq (target? v p) (target? w p') := by
  refine .bind .heap fun h k hh => ?_
  rw [hh.classOf? hv, nameOf_eq hh hp]
  split
  · exact .pure rfl
  · exact .bind (.ofExcept_eq rfl) fun _ _ hn => .pure (by rw [hn])

theorem beans_sim (readOnly : Bool) (h : Request.Alike host.classes r q q') :
    Sim host.classes r (beans host handle readOnly q) (beans host handle readOnly q') := by
  have found {h k : Heap} (hh : Heap.Alike host.classes h k) (c : ClassId) (name : String) :
      property h (.ofClass host.classes c) name = property k (.ofClass host.classes c) name := by
    simp only [property, hh.lineage]
  have declared {h : Heap} {c : ClassId} {name : String} {p : BeanProperty} {m : Method}
      (hp : property h (.ofClass host.classes c) name = .ok p)
      (hm : p.reader = some m ∨ p.writer = some m) : host.classes.Declares m := by
    simp only [property] at hp
    split at hp
    · next hfind =>
      cases hp
      exact BeanProperties.declares_of_ofClass hfind hm
    · cases hp
  cases h with
  | get hb hp =>
    refine .bind (target?_sim hb hp) fun found? _ hfound => ?_
    subst hfound
    rcases found? with _ | ⟨c, name⟩
    · exact .pure (.same _)
    · refine .bind (.claim hb hp) fun _ _ _ => .bind .heap fun h k hh => ?_
      rw [found hh, hh.lineage]
      refine .bind (.ofExcept_self _) fun p _ ⟨hp, hprop⟩ => ?_
      subst hp
      cases hm : p.reader with
      | some m => exact method_run_sim hf (declared hprop (.inl hm)) hb .nil
      | none => exact .fail _
  | type hb hp =>
    refine .bind (target?_sim hb hp) fun found? _ hfound => ?_
    subst hfound
    rcases found? with _ | ⟨c, name⟩
    · exact .pure rfl
    · refine .bind (.claim hb hp) fun _ _ _ => .bind .heap fun h k hh => ?_
      rw [found hh]
      exact .bind (.ofExcept_eq rfl) fun p _ hp => .pure (by rw [hp])
  | set hb hp hv =>
    refine .bind (target?_sim hb hp) fun found? _ hfound => ?_
    subst hfound
    rcases found? with _ | ⟨c, name⟩
    · exact .pure rfl
    · refine .bind (.claim hb hp) fun _ _ _ => .ite_eq rfl (.fail _) <|
        .bind .heap fun h k hh => ?_
      rw [found hh, hh.lineage]
      refine .bind (.ofExcept_self _) fun p _ ⟨hp, hprop⟩ => ?_
      subst hp
      cases hm : p.writer with
      | some m =>
        exact .bind (method_invoke_sim hf (declared hprop (.inr hm)) hb (.cons hv .nil))
          fun _ _ _ => .pure rfl
      | none => exact .fail _
  | readOnly hb hp =>
    refine .bind (target?_sim hb hp) fun found? _ hfound => ?_
    subst hfound
    rcases found? with _ | ⟨c, name⟩
    · exact .pure rfl
    · refine .bind (.claim hb hp) fun _ _ _ => .ite_eq rfl (.pure rfl) <|
        .bind .heap fun h k hh => ?_
      rw [found hh]
      exact .bind (.ofExcept_eq rfl) fun p _ hp => .pure (by rw [hp])
  | invoke types hb hm hvs =>
    refine .bind (target?_sim hb hm) fun found? _ hfound => ?_
    subst hfound
    rcases found? with _ | ⟨c, name⟩
    · exact .pure (.same _)
    · refine .bind (.claim hb hm) fun _ _ _ => .bind .heap fun h k hh => ?_
      rw [hh.lineage]
      exact callBest_sim hf (fun m hmem => ClassTable.declares_of_mem_allMethods hmem) types hb hvs
  | convert type _ => exact .pure (.same _)

/-! ## Requests -/

theorem answer_sim (m : Resolver) (h : Request.Alike host.classes r q q') :
    Sim host.classes r (answer host handle m q) (answer host handle m q') := by
  cases m with
  | names store => exact names_sim store h
  | statics => exact statics_sim hf h
  | maps readOnly => exact maps_sim readOnly h
  | lists readOnly => exact lists_sim readOnly h
  | arrays readOnly => exact arrays_sim readOnly h
  | records => exact records_sim hf h
  | beans readOnly => exact beans_sim hf readOnly h
  | group members => exact .pure h.neutral
  | custom i => exact hf.blind.resolvers i h

theorem resolve_sim (h : Request.Alike host.classes r q q') :
    Sim host.classes r (resolve host handle q) (resolve host handle q') :=
  askChain_sim h.neutral fun m => answer_sim hf m h

theorem require_sim {b c p p' : Value} (hb : Value.Alike host.classes b c)
    (hp : Value.Alike host.classes p p') (h : Request.Alike host.classes r q q') :
    Sim host.classes r (require host handle b p q) (require host handle c p' q') := by
  refine .bind (resolve_sim hf h) fun _ _ hab => .bind .isResolved fun _ _ hc =>
    .ite_eq hc (.pure hab) (.bind .heap fun h k hh => ?_)
  have hfault : unclaimed h b p = unclaimed k c p' := by
    simp only [unclaimed, hb.isNull_eq, hh.display hp, hh.typeName hb]
  rw [hfault]
  exact .fail _

theorem get_sim {b c p p' : Value} (hb : Value.Alike host.classes b c)
    (hp : Value.Alike host.classes p p') :
    Sim host.classes (Value.Alike host.classes) (get host handle b p) (get host handle c p') :=
  require_sim hf hb hp (.get hb hp)

theorem set_sim {b c p p' v w : Value} (hb : Value.Alike host.classes b c)
    (hp : Value.Alike host.classes p p') (hv : Value.Alike host.classes v w) :
    Sim host.classes Eq (set host handle b p v) (set host handle c p' w) :=
  require_sim hf hb hp (.set hb hp hv)

theorem type_sim {b c p p' : Value} (hb : Value.Alike host.classes b c)
    (hp : Value.Alike host.classes p p') :
    Sim host.classes Eq (type host handle b p) (type host handle c p') :=
  require_sim hf hb hp (.type hb hp)

theorem readOnly_sim {b c p p' : Value} (hb : Value.Alike host.classes b c)
    (hp : Value.Alike host.classes p p') :
    Sim host.classes Eq (readOnly host handle b p) (readOnly host handle c p') :=
  require_sim hf hb hp (.readOnly hb hp)

theorem invoke_sim {b c m n : Value} (types : Option (List TypeRef)) {vs ws : List Value}
    (hb : Value.Alike host.classes b c) (hm : Value.Alike host.classes m n)
    (hvs : List.Forall₂ (Value.Alike host.classes) vs ws) :
    Sim host.classes (Value.Alike host.classes) (invoke host handle b m types vs)
      (invoke host handle c n types ws) :=
  .bind (resolve_sim hf (.invoke types hb hm hvs)) fun _ _ hab => .bind .isResolved fun _ _ hc =>
    .ite_eq hc (.pure hab) <| .bind .heap fun h k hh => by
      rw [hh.display hm, hh.typeName hb]
      exact .fail _

end Objects

end ExprLang.Resolution
