import ExprLang.Proofs.Evaluation.Lockstep

/-! Every resolver answers in a related way, whichever of two handlers carries out its tasks. -/

namespace ExprLang.Resolution

open Lockstep

variable {α : Type} {host : Host} {handle handle' : Handler} {L : Layout → Prop}
  {R : ∀ {α : Type}, Action α → Action α → Prop}

section Values
variable (hd : Composition host L R)
include hd

theorem names_lockstep (store : Nat) (q : Request α) : R (names store q) (names store q) := by
  have known (base property : Value) :
      R (knownName? store base property) (knownName? store base property) :=
    hd.context (fun _ _ => rfl) (fun _ _ => rfl) fun _ _ => hd.pure _
  cases q with
  | get base property =>
    refine hd.bind (known base property) fun name => ?_
    cases name with
    | none => exact hd.pure _
    | some name =>
      exact hd.bind (hd.claim _ _) fun _ =>
        hd.context (fun _ _ => rfl) (fun _ _ => rfl) fun _ _ => hd.pure _
  | type base property =>
    refine hd.bind (known base property) fun name => ?_
    cases name with
    | none => exact hd.pure _
    | some name => exact hd.bind (hd.claim _ _) fun _ => hd.pure _
  | set base property value =>
    simp only [names]
    cases plainName? base property with
    | none => exact hd.pure _
    | some name =>
      exact hd.bind (hd.claim _ _) fun _ =>
        hd.setStore store (·.insert name value)
  | readOnly base property =>
    refine hd.bind (known base property) fun name => ?_
    cases name with
    | none => exact hd.pure _
    | some name => exact hd.bind (hd.claim _ _) fun _ => hd.pure _
  | invoke base method types args => exact hd.pure _
  | convert v t => exact hd.pure _

theorem maps_lockstep (readOnly : Bool) (q : Request α) : R (maps readOnly q) (maps readOnly q) := by
  cases q with
  | get base property =>
    cases base <;> first | exact hd.pure _ | skip
    exact hd.bind (hd.claim _ _) fun _ => hd.bind hd.heap fun _ => hd.pure _
  | type base property =>
    cases base <;> first | exact hd.pure _ | skip
    exact hd.bind (hd.claim _ _) fun _ => hd.pure _
  | set base property value =>
    cases base <;> first | exact hd.pure _ | skip
    exact hd.bind (hd.claim _ _) fun _ => hd.bind hd.heap fun _ =>
      hd.ite (hd.fail _) (hd.setCells _)
  | readOnly base property =>
    cases base <;> first | exact hd.pure _ | skip
    exact hd.bind (hd.claim _ _) fun _ => hd.pure _
  | invoke base method types args => exact hd.pure _
  | convert v t => exact hd.pure _

theorem indexOf_lockstep (property : Value) : R (indexOf property) (indexOf property) :=
  hd.bind hd.heap fun _ => hd.bind (hd.ofExcept _) fun _ => hd.pure _

theorem place_lockstep (index : Int) (length : Nat) : R (place index length) (place index length) := by
  unfold place
  cases place? index length with
  | some i => exact hd.pure _
  | none => exact hd.fail _

theorem lists_lockstep (readOnly : Bool) (q : Request α) :
    R (lists readOnly q) (lists readOnly q) := by
  cases q with
  | get base property =>
    cases base <;> first | exact hd.pure _ | skip
    exact hd.bind (hd.claim _ _) fun _ => hd.bind (indexOf_lockstep hd _) fun _ =>
      hd.bind hd.heap fun _ => hd.pure _
  | type base property =>
    cases base <;> first | exact hd.pure _ | skip
    exact hd.bind (hd.claim _ _) fun _ => hd.bind (indexOf_lockstep hd _) fun _ =>
      hd.bind hd.heap fun _ => hd.bind (place_lockstep hd _ _) fun _ => hd.pure _
  | set base property value =>
    cases base <;> first | exact hd.pure _ | skip
    exact hd.bind (hd.claim _ _) fun _ => hd.ite (hd.fail _) <|
      hd.bind (indexOf_lockstep hd _) fun _ => hd.bind hd.heap fun _ =>
      hd.bind (place_lockstep hd _ _) fun _ => hd.setCells _
  | readOnly base property =>
    cases base <;> first | exact hd.pure _ | skip
    exact hd.bind (hd.claim _ _) fun _ => hd.bind (indexOf_lockstep hd _) fun _ =>
      hd.bind hd.heap fun _ => hd.bind (place_lockstep hd _ _) fun _ => hd.pure _
  | invoke base method types args => exact hd.pure _
  | convert v t => exact hd.pure _

theorem arrays_lockstep (readOnly : Bool) (q : Request α) :
    R (arrays readOnly q) (arrays readOnly q) := by
  cases q with
  | get base property =>
    cases base <;> first | exact hd.pure _ | skip
    exact hd.bind (hd.claim _ _) fun _ => hd.bind (indexOf_lockstep hd _) fun _ =>
      hd.bind hd.heap fun _ => hd.pure _
  | type base property =>
    cases base <;> first | exact hd.pure _ | skip
    exact hd.bind (hd.claim _ _) fun _ => hd.bind (indexOf_lockstep hd _) fun _ =>
      hd.bind hd.heap fun _ => hd.bind (place_lockstep hd _ _) fun _ => hd.pure _
  | set base property value =>
    cases base <;> first | exact hd.pure _ | skip
    exact hd.bind (hd.claim _ _) fun _ => hd.ite (hd.fail _) <|
      hd.bind (indexOf_lockstep hd _) fun _ => hd.bind hd.heap fun _ =>
      hd.bind (place_lockstep hd _ _) fun _ => hd.ite (hd.setCells _) (hd.fail _)
  | readOnly base property =>
    cases base <;> first | exact hd.pure _ | skip
    exact hd.bind (hd.claim _ _) fun _ => hd.bind (indexOf_lockstep hd _) fun _ =>
      hd.bind hd.heap fun _ => hd.bind (place_lockstep hd _ _) fun _ => hd.pure _
  | invoke base method types args => exact hd.pure _
  | convert v t => exact hd.pure _

end Values

section Objects
variable (hd : Programmed host handle handle' L R)
include hd

theorem callBest_lockstep (owner : String) {methods : List Method}
    (hm : ∀ m ∈ methods, host.classes.Declares m) (name : String) (types : Option (List TypeRef))
    (self : Value) (args : List Value) :
    R (callBest host handle owner methods name types self args)
      (callBest host handle' owner methods name types self args) :=
  hd.bind hd.heap fun _ => hd.ofExcept_bind fun m hf =>
    hd.method_invoke (hm m (Overload.mem_of_find hf)) self args

theorem statics_lockstep (q : Request α) : R (statics host handle q) (statics host handle' q) := by
  cases q with
  | get base property =>
    cases base <;> first | exact hd.pure _ | skip
    refine hd.bind hd.heap fun h => hd.bind (hd.ofExcept _) fun name =>
      hd.ite (hd.bind (hd.claim _ _) fun _ => hd.pure _) ?_
    cases (host.classes.members _).field? name with
    | some f => exact hd.bind (hd.claim _ _) fun _ => hd.pure _
    | none => exact hd.pure _
  | type base property =>
    cases base <;> first | exact hd.pure _ | skip
    refine hd.bind hd.heap fun h => hd.bind (hd.ofExcept _) fun name => ?_
    cases (host.classes.members _).field? name with
    | some f => exact hd.bind (hd.claim _ _) fun _ => hd.pure _
    | none => exact hd.pure _
  | set base property value =>
    cases base <;> first | exact hd.pure _ | skip
    exact hd.bind hd.heap fun h => hd.bind (hd.ofExcept _) fun name =>
      hd.ite (hd.bind (hd.claim _ _) fun _ => hd.fail _) (hd.pure _)
  | readOnly base property =>
    cases base <;> first | exact hd.pure _ | skip
    refine hd.bind hd.heap fun h => hd.bind (hd.ofExcept _) fun name => ?_
    split
    · exact hd.bind (hd.claim _ _) fun _ => hd.pure _
    · exact hd.pure _
  | invoke base method types args =>
    cases base with
    | cls c =>
      refine hd.bind hd.heap fun h => hd.bind (hd.ofExcept _) fun name => hd.ite (hd.pure _) <|
        hd.bind (hd.claim _ _) fun _ => callBest_lockstep hd _ (fun m hm => ?_) _ _ _ _
      split at hm
      · exact ⟨c, .inr hm⟩
      · exact ClassTable.declares_of_mem_allMethods (List.mem_filter.mp hm).1
    | _ => exact hd.pure _
  | convert v t => exact hd.pure _

theorem records_lockstep (q : Request α) : R (records host handle q) (records host handle' q) := by
  cases q with
  | get base property =>
    refine hd.bind hd.heap fun h => ?_
    cases recordClass? h base with
    | none => exact hd.pure _
    | some c =>
      refine hd.bind (hd.claim _ _) fun _ => hd.bind (hd.ofExcept _) fun name => ?_
      cases hreader : (host.classes.allMethods c).find? fun m =>
          m.name == name && m.params.isEmpty && !m.isStatic with
      | none => cases (host.classes.members c).component? name <;> exact hd.fail _
      | some m =>
        have hm := ClassTable.declares_of_mem_allMethods (List.mem_of_find?_eq_some hreader)
        cases (host.classes.members c).component? name with
        | none => exact hd.fail _
        | some k => exact hd.run _ _ hm
  | type base property =>
    refine hd.bind hd.heap fun h => ?_
    split
    · exact hd.bind (hd.claim _ _) fun _ => hd.pure _
    · exact hd.pure _
  | set base property value =>
    refine hd.bind hd.heap fun h => ?_
    cases recordClass? h base with
    | none => exact hd.pure _
    | some c =>
      exact hd.bind (hd.claim _ _) fun _ => hd.bind (hd.ofExcept _) fun name =>
        hd.ite (hd.fail _) (hd.fail _)
  | readOnly base property =>
    refine hd.bind hd.heap fun h => ?_
    split
    · exact hd.bind (hd.claim _ _) fun _ => hd.pure _
    · exact hd.pure _
  | invoke base method types args => exact hd.pure _
  | convert v t => exact hd.pure _

omit hd in
theorem declares_of_property {h : Heap} {c : ClassId} {name : String} {p : BeanProperty} {m : Method}
    (hp : property h (.ofClass host.classes c) name = .ok p)
    (hm : p.reader = some m ∨ p.writer = some m) : host.classes.Declares m := by
  unfold property at hp
  split at hp
  · next q hq =>
    cases hp
    exact BeanProperties.declares_of_ofClass hq hm
  · cases hp

theorem target?_lockstep (base property : Value) :
    R (target? base property) (target? base property) := by
  refine hd.bind hd.heap fun h => ?_
  cases h.classOf? base with
  | none => exact hd.pure _
  | some c => exact hd.bind (hd.ofExcept _) fun _ => hd.pure _

theorem beans_lockstep (readOnly : Bool) (q : Request α) :
    R (beans host handle readOnly q) (beans host handle' readOnly q) := by
  cases q with
  | get base property =>
    refine hd.bind (target?_lockstep hd _ _) fun t => ?_
    rcases t with _ | ⟨c, name⟩
    · exact hd.pure _
    · refine hd.bind (hd.claim _ _) fun _ => hd.bind hd.heap fun h =>
        hd.ofExcept_bind fun p hp => ?_
      cases hreader : p.reader with
      | some m => exact hd.run _ _ (declares_of_property hp (.inl hreader))
      | none => exact hd.fail _
  | type base property =>
    refine hd.bind (target?_lockstep hd _ _) fun t => ?_
    rcases t with _ | ⟨c, name⟩
    · exact hd.pure _
    · exact hd.bind (hd.claim _ _) fun _ => hd.bind hd.heap fun h =>
        hd.bind (hd.ofExcept _) fun p => hd.pure _
  | set base property value =>
    refine hd.bind (target?_lockstep hd _ _) fun t => ?_
    rcases t with _ | ⟨c, name⟩
    · exact hd.pure _
    · refine hd.bind (hd.claim _ _) fun _ => hd.ite (hd.fail _) <|
        hd.bind hd.heap fun h => hd.ofExcept_bind fun p hp => ?_
      cases hwriter : p.writer with
      | some m =>
        exact hd.bind (hd.method_invoke (declares_of_property hp (.inr hwriter)) _ _) fun _ =>
          hd.pure _
      | none => exact hd.fail _
  | readOnly base property =>
    refine hd.bind (target?_lockstep hd _ _) fun t => ?_
    rcases t with _ | ⟨c, name⟩
    · exact hd.pure _
    · exact hd.bind (hd.claim _ _) fun _ => hd.ite (hd.pure _) <|
        hd.bind hd.heap fun h => hd.bind (hd.ofExcept _) fun p => hd.pure _
  | invoke base method types args =>
    refine hd.bind (target?_lockstep hd _ _) fun t => ?_
    rcases t with _ | ⟨c, name⟩
    · exact hd.pure _
    · exact hd.bind (hd.claim _ _) fun _ => hd.bind hd.heap fun h =>
        callBest_lockstep hd _ (fun _ => ClassTable.declares_of_mem_allMethods) _ _ _ _
  | convert v t => exact hd.pure _

theorem answer_lockstep (r : Resolver) (q : Request α)
    (hr : r.Admits fun i => ∀ {β : Type} (q : Request β), R (host.custom i q) (host.custom i q)) :
    R (answer host handle r q) (answer host handle' r q) := by
  cases r with
  | names store => exact names_lockstep hd.toComposition store q
  | statics => exact statics_lockstep hd q
  | maps readOnly => exact maps_lockstep hd.toComposition readOnly q
  | lists readOnly => exact lists_lockstep hd.toComposition readOnly q
  | arrays readOnly => exact arrays_lockstep hd.toComposition readOnly q
  | records => exact records_lockstep hd q
  | beans readOnly => exact beans_lockstep hd readOnly q
  | group members => exact hd.pure _
  | custom i =>
    rw [Resolver.Admits] at hr
    exact hr q

theorem resolve_lockstep (q : Request α) : R (resolve host handle q) (resolve host handle' q) :=
  hd.askChain (answer_lockstep hd) q

theorem require_lockstep (base property : Value) (q : Request α) :
    R (require host handle base property q) (require host handle' base property q) :=
  hd.bind (resolve_lockstep hd q) fun _ => hd.bind hd.isResolved fun _ =>
    hd.ite (hd.pure _) (hd.bind hd.heap fun _ => hd.fail _)

theorem invoke_lockstep (base method : Value) (types : Option (List TypeRef)) (args : List Value) :
    R (invoke host handle base method types args) (invoke host handle' base method types args) :=
  hd.bind (resolve_lockstep hd _) fun _ => hd.bind hd.isResolved fun _ =>
    hd.ite (hd.pure _) (hd.bind hd.heap fun _ => hd.fail _)

end Objects

end ExprLang.Resolution
