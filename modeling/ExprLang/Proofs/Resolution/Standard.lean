import ExprLang.Proofs.Evaluation.Arguments
import ExprLang.Proofs.Resolution.Claimed

/-! Who answers in the standard chain. A request for a property of a value is answered by the resolver
for values of its kind; those before it decline, and those behind it are not asked. -/

namespace ExprLang

open Action (Keeps)

/-- The world in which a request for a property is claimed. -/
def World.claimed (w : World) (base property : Value) : World :=
  { w.flagged true with
    log := .resolved (w.heap.typeName base) (w.heap.display property) :: w.log }

/-- Every listener lets the claim of this property pass. -/
def World.Permits (w : World) (base property : Value) : Prop :=
  Action.objection? w.context.listeners
    (.resolved (w.heap.typeName base) (w.heap.display property)) = none

@[simp] theorem World.claimed_heap (w : World) (base property : Value) :
    (w.claimed base property).heap = w.heap := rfl

@[simp] theorem World.claimed_context (w : World) (base property : Value) :
    (w.claimed base property).context = { w.context with resolved := true } := rfl

theorem Action.claim_permitted {w : World} {base property : Value} (h : w.Permits base property) :
    Action.claim base property w = .value () (w.claimed base property) := by
  show Action.notify _ (w.flagged true) = _
  rw [Action.notify]
  simp only [show Action.objection? (w.flagged true).context.listeners _ = none from h]
  rfl

theorem Action.claim_eq_value {w u : World} {base property : Value} :
    Action.claim base property w = .value () u ↔
      w.Permits base property ∧ u = w.claimed base property := by
  constructor
  · intro h
    have hpermits : w.Permits base property := by
      rw [World.Permits, Option.eq_none_iff_forall_ne_some]
      intro f hf
      have hfault : Action.claim base property w = .fault f (w.claimed base property) := by
        show Action.notify _ (w.flagged true) = _
        rw [Action.notify]
        simp only [show Action.objection? (w.flagged true).context.listeners _ = some f from hf]
        rfl
      rw [hfault] at h
      cases h
    rw [Action.claim_permitted hpermits] at h
    cases h
    exact ⟨hpermits, rfl⟩
  · rintro ⟨h, rfl⟩
    exact Action.claim_permitted h

theorem World.permits_of_no_listeners {w : World} (h : w.context.listeners = [])
    (base property : Value) : w.Permits base property := by
  rw [World.Permits, h]
  rfl

theorem ofExcept_eq_value {α : Type} {r : Except Fault α} {a : α} {w u : World} :
    Action.ofExcept r w = .value a u ↔ r = .ok a ∧ u = w := by
  cases r with
  | ok b =>
    constructor
    · intro h
      cases h
      exact ⟨rfl, rfl⟩
    · rintro ⟨hr, rfl⟩
      cases hr
      rfl
  | error e => exact ⟨nofun, fun h => nomatch h.1⟩

/-! ## Conversions -/

/-- The standard chain leaves conversions to the rules of coercion. -/
theorem Conversion.convert_standard {host : Host} {w : World} {ro : Bool}
    (hw : w.context.layout = .standard [] ro) (v : Value) (t : TypeRef) :
    Conversion.convert host v t w = Action.ofExcept (Coercion.toType w.heap t v) w := by
  have hask : askChain (Conversion.answer host) (.convert v t) (w.flagged false) =
      .value .null (w.flagged false) := by
    rw [askChain_apply, show (w.flagged false).context.layout = _ from hw]
    simp only [Layout.resolvers, askAll, Resolver.ask]
    rfl
  have hconvert := Conversion.convert_value hask rfl
  exact hconvert

namespace Resolution

variable {host : Host} {handle : Handler} {ro : Bool} {α : Type} {q : Request α} {w v u : World}

/-! ## The resolver for a value -/

/-- A request that only asks or changes what a property holds as declared, without reading it. -/
def Declares : {α : Type} → Request α → Prop
  | _, .type _ _ => True
  | _, .set _ _ _ => True
  | _, .readOnly _ _ => True
  | _, _ => False

/-- A class has a static field of this name, or the property has no name. -/
def isField (host : Host) (h : Heap) (c : ClassId) (property : Value) : Bool :=
  match nameOf h property with
  | .ok name => ((host.classes.members c).field? name).isSome
  | .error _ => true

theorem isField_named {h : Heap} {c : ClassId} {property : Value} {name : String}
    (hn : nameOf h property = .ok name) (hf : isField host h c property = true) :
    ((host.classes.members c).field? name).isSome = true := by
  simp only [isField, hn] at hf
  exact hf

/-- A resolver that does not claim the request. -/
def Foreign (host : Host) (h : Heap) (q : Request α) : Resolver → Prop
  | .names _ => q.subject.1 ≠ .null
  | .group members => members = []
  | .statics => ∀ c, q.subject.1 = .cls c → Declares q ∧ isField host h c q.subject.2 = false
  | .maps _ => ∀ a, q.subject.1 ≠ .map a
  | .lists _ => ∀ a, q.subject.1 ≠ .list a
  | .arrays _ => ∀ a, q.subject.1 ≠ .array a
  | .records => recordClass? h q.subject.1 = none
  | .beans _ | .custom _ => False

/-- The resolver of the standard chain for a property of a value that is not null. -/
def server (host : Host) (ro : Bool) (h : Heap) (base property : Value) : Resolver :=
  match base with
  | .map _ => .maps false
  | .list _ => .lists false
  | .array _ => .arrays false
  | .cls c => if isField host h c property then .statics else .beans ro
  | base => if (recordClass? h base).isSome then .records else .beans ro

theorem names_declines {store : Nat} (h : q.subject.1 ≠ .null) :
    names store q w = .value q.neutral w := by
  have hname (base property : Value) (hb : base ≠ .null) : plainName? base property = none := by
    cases base <;> first | rfl | exact absurd rfl hb
  have hknown (base property : Value) (hb : base ≠ .null) :
      knownName? store base property w = .value none w := by
    simp only [knownName?, hname base property hb]
    rfl
  cases q with
  | get base property => rw [names, Action.bind_value (hknown base property h)]; rfl
  | type base property => rw [names, Action.bind_value (hknown base property h)]; rfl
  | set base property value => simp only [names, hname base property h]; rfl
  | readOnly base property => rw [names, Action.bind_value (hknown base property h)]; rfl
  | invoke | convert => rfl

theorem statics_declines
    (h : ∀ c, q.subject.1 = .cls c → Declares q ∧ isField host w.heap c q.subject.2 = false) :
    ∃ a, statics host handle q w = .value a w := by
  have hname {c : ClassId} (property : Value) (hf : isField host w.heap c property = false) :
      ∃ name, nameOf w.heap property = .ok name ∧ (host.classes.members c).field? name = none := by
    unfold isField at hf
    split at hf
    · next name hn => exact ⟨name, hn, by simpa using hf⟩
    · cases hf
  cases q with
  | get base property =>
    cases base with
    | cls c => exact (h c rfl).1.elim
    | _ => exact ⟨_, rfl⟩
  | invoke base method types args =>
    cases base with
    | cls c => exact (h c rfl).1.elim
    | _ => exact ⟨_, rfl⟩
  | type base property =>
    cases base with
    | cls c =>
      obtain ⟨name, hn, hf⟩ := hname property (h c rfl).2
      refine ⟨none, ?_⟩
      simp only [statics, Action.bind_value (Action.heap_apply w), ofExcept_ok hn, pure_bind, hf]
      rfl
    | _ => exact ⟨_, rfl⟩
  | set base property value =>
    cases base with
    | cls c =>
      obtain ⟨name, hn, hf⟩ := hname property (h c rfl).2
      refine ⟨(), ?_⟩
      simp only [statics, Action.bind_value (Action.heap_apply w), ofExcept_ok hn, pure_bind, hf]
      rfl
    | _ => exact ⟨_, rfl⟩
  | readOnly base property =>
    cases base with
    | cls c =>
      obtain ⟨name, hn, hf⟩ := hname property (h c rfl).2
      refine ⟨true, ?_⟩
      simp only [statics, Action.bind_value (Action.heap_apply w), ofExcept_ok hn, pure_bind, hf]
      rfl
    | _ => exact ⟨_, rfl⟩
  | convert v t => exact ⟨_, rfl⟩

theorem records_declines (h : recordClass? w.heap q.subject.1 = none) :
    ∃ a, records host handle q w = .value a w := by
  cases q with
  | get base property =>
    refine ⟨.null, ?_⟩
    simp only [records, Action.bind_value (Action.heap_apply w),
      show recordClass? w.heap base = none from h]
    rfl
  | type base property =>
    refine ⟨none, ?_⟩
    simp only [records, Action.bind_value (Action.heap_apply w),
      show recordClass? w.heap base = none from h]
    rfl
  | set base property value =>
    refine ⟨(), ?_⟩
    simp only [records, Action.bind_value (Action.heap_apply w),
      show recordClass? w.heap base = none from h]
    rfl
  | readOnly base property =>
    refine ⟨true, ?_⟩
    simp only [records, Action.bind_value (Action.heap_apply w),
      show recordClass? w.heap base = none from h]
    rfl
  | invoke | convert => exact ⟨_, rfl⟩

theorem maps_declines {readOnly : Bool} (h : ∀ a, q.subject.1 ≠ .map a) :
    ∃ a, maps readOnly q w = .value a w := by
  cases q with
  | invoke | convert => exact ⟨_, rfl⟩
  | get base | type base | set base | readOnly base =>
    cases base with
    | map a => exact absurd rfl (h a)
    | _ => exact ⟨_, rfl⟩

theorem lists_declines {readOnly : Bool} (h : ∀ a, q.subject.1 ≠ .list a) :
    ∃ a, lists readOnly q w = .value a w := by
  cases q with
  | invoke | convert => exact ⟨_, rfl⟩
  | get base | type base | set base | readOnly base =>
    cases base with
    | list a => exact absurd rfl (h a)
    | _ => exact ⟨_, rfl⟩

theorem arrays_declines {readOnly : Bool} (h : ∀ a, q.subject.1 ≠ .array a) :
    ∃ a, arrays readOnly q w = .value a w := by
  cases q with
  | invoke | convert => exact ⟨_, rfl⟩
  | get base | type base | set base | readOnly base =>
    cases base with
    | array a => exact absurd rfl (h a)
    | _ => exact ⟨_, rfl⟩

/-- A resolver to which the request is foreign leaves it to the next one. -/
theorem ask_foreign (handle : Handler) {r : Resolver} (hw : w.context.resolved = false)
    (h : Foreign host w.heap q r) : ∃ a, r.ask (answer host handle) q w = .value a w := by
  cases r with
  | names store => exact ⟨q.neutral, names_declines h⟩
  | group members =>
    cases (h : members = [])
    refine ⟨q.neutral, ?_⟩
    rw [Resolver.ask, Action.bind_value (Conversion.setResolved_apply false w), askAll,
      show w.flagged false = w by rw [← hw]; rfl]
    rfl
  | statics => exact statics_declines h
  | maps => exact maps_declines h
  | lists => exact lists_declines h
  | arrays => exact arrays_declines h
  | records => exact records_declines h
  | beans | custom => exact h.elim

theorem declined_of_foreign {rs : List Resolver} (hw : w.context.resolved = false)
    (h : ∀ r ∈ rs, Foreign host w.heap q r) : Declined (answer host handle) q rs w w := by
  induction rs with
  | nil => rfl
  | cons r rs ih =>
    obtain ⟨a, hr⟩ := ask_foreign handle hw (h r (by simp))
    exact ⟨a, w, hr, hw, ih fun r hr => h r (by simp [hr])⟩

/-- The resolver for a value stands behind resolvers to which a request about the value is foreign. The
one for beans stands last. -/
theorem server_split (host : Host) (ro : Bool) (hnull : q.subject.1 ≠ .null)
    (hq : ∀ c, q.subject.1 = .cls c → Declares q) (h : Heap) :
    ∃ before after, (Layout.standard [] ro).resolvers =
        before ++ server host ro h q.subject.1 q.subject.2 :: after ∧
      (∀ r ∈ before, Foreign host h q r) ∧
      (server host ro h q.subject.1 q.subject.2 = .beans ro → after = []) := by
  generalize hb : q.subject.1 = base at *
  cases base with
  | null => exact absurd rfl hnull
  | map a =>
    refine ⟨[.names 0, .group [], .statics], _, rfl, ?_, nofun⟩
    simp [Foreign, hb]
  | list a =>
    refine ⟨[.names 0, .group [], .statics, .maps false], _, rfl, ?_, nofun⟩
    simp [Foreign, hb]
  | array a =>
    refine ⟨[.names 0, .group [], .statics, .maps false, .lists false], _, rfl, ?_, nofun⟩
    simp [Foreign, hb]
  | cls c =>
    cases hf : isField host h c q.subject.2 with
    | true =>
      refine ⟨[.names 0, .group []], _, by simp only [server, hf]; rfl, ?_, ?_⟩
      · simp [Foreign, hb]
      · simp [server, hf]
    | false =>
      refine ⟨[.names 0, .group [], .statics, .maps false, .lists false, .arrays false, .records], [],
        by simp only [server, hf]; rfl, ?_, fun _ => rfl⟩
      simp [Foreign, hb, hf, hq c rfl, recordClass?]
  | object a =>
    cases hr : (recordClass? h (.object a)).isSome with
    | true =>
      refine ⟨[.names 0, .group [], .statics, .maps false, .lists false, .arrays false], _,
        by simp only [server, hr]; rfl, ?_, ?_⟩
      · simp [Foreign, hb]
      · simp [server, hr]
    | false =>
      refine ⟨[.names 0, .group [], .statics, .maps false, .lists false, .arrays false, .records], [],
        by simp only [server, hr]; rfl, ?_, fun _ => rfl⟩
      have hnone : recordClass? h (.object a) = none := by simpa using hr
      simp [Foreign, hb, hnone]
  | _ =>
    refine ⟨[.names 0, .group [], .statics, .maps false, .lists false, .arrays false, .records], [],
      rfl, ?_, fun _ => rfl⟩
    simp [Foreign, hb, recordClass?]

/-- A name of the local store is read there. -/
theorem resolve_bean {n : String} {b : Value} (hw : w.context.layout = .standard [] ro)
    (hb : (w.context.store 0).find? n = some b) (hpermits : w.Permits .null (.text n)) :
    resolve host handle (.get .null (.text n)) w = .value b (w.claimed .null (.text n)) := by
  have hknown : knownName? 0 .null (.text n) (w.flagged false) =
      .value (some n) (w.flagged false) := by
    have hcontains : (w.context.store 0).contains n = true := by
      simp only [Bindings.contains, hb, Option.isSome_some]
    refine congrArg (Outcome.value · (w.flagged false)) ?_
    exact Option.filter_eq_some_iff.mpr ⟨rfl, hcontains⟩
  have hask : (Resolver.names 0).ask (answer host handle) (.get .null (.text n))
      (w.flagged false) = .value b (w.claimed .null (.text n)) := by
    show names 0 (.get .null (.text n)) (w.flagged false) = _
    rw [names, Action.bind_value hknown]
    refine (Action.bind_value (Action.claim_permitted hpermits)).trans ?_
    refine congrArg (Outcome.value · (w.claimed .null (.text n))) ?_
    show ((w.context.store 0).find? n).getD .null = b
    rw [hb, Option.getD_some]
  rw [resolve, askChain_apply, hw]
  exact askAll_cons_resolved hask rfl

/-! ## What is answered is claimed -/

/-- A request for a property, and not for a method or a conversion. -/
def OfProperty : {α : Type} → Request α → Prop
  | _, .get _ _ => True
  | _, .type _ _ => True
  | _, .set _ _ _ => True
  | _, .readOnly _ _ => True
  | _, _ => False

/-- Whether the last request was claimed. -/
def claimFlag (w : World) : Bool := w.context.resolved

theorem setCells_flag (h : Heap) : Keeps claimFlag (Action.setCells h) := by
  intro w u hu
  cases hu
  rfl

theorem indexOf_flag (property : Value) : Keeps claimFlag (indexOf property) :=
  .bind .heap fun _ => .bind (.ofExcept _) fun _ => .pure _

theorem place_flag (index : Int) (length : Nat) : Keeps claimFlag (place index length) := by
  unfold place
  split
  · exact .pure _
  · exact .fail _

/-- A claim stands where what follows leaves the flag. -/
theorem claim_stands {base property : Value} {x : Action α} {a : α} (hx : Keeps claimFlag x)
    (h : (do Action.claim base property; x) w = .value a u) : u.context.resolved = true := by
  obtain ⟨_, v, hclaim, hrest⟩ := Action.bind_eq_value.mp h
  obtain ⟨_, rfl⟩ := Action.claim_eq_value.mp hclaim
  exact hx _ u (by rw [hrest]; rfl)

theorem maps_claims {a : Address} {b : α} (hb : q.subject.1 = .map a) (hq : OfProperty q)
    (h : maps false q w = .value b u) : u.context.resolved = true := by
  cases q with
  | get base property =>
    cases (show base = .map a from hb)
    exact claim_stands (.bind .heap fun _ => .pure _) h
  | type base property =>
    cases (show base = .map a from hb)
    exact claim_stands (.pure _) h
  | set base property value =>
    cases (show base = .map a from hb)
    exact claim_stands (.bind .heap fun _ => setCells_flag _) h
  | readOnly base property =>
    cases (show base = .map a from hb)
    exact claim_stands (.pure _) h
  | invoke | convert => exact hq.elim

theorem lists_claims {a : Address} {b : α} (hb : q.subject.1 = .list a) (hq : OfProperty q)
    (h : lists false q w = .value b u) : u.context.resolved = true := by
  cases q with
  | get base property =>
    cases (show base = .list a from hb)
    exact claim_stands (.bind (indexOf_flag _) fun _ => .bind .heap fun _ => .pure _) h
  | type base property =>
    cases (show base = .list a from hb)
    exact claim_stands (.bind (indexOf_flag _) fun _ => .bind .heap fun _ =>
      .bind (place_flag _ _) fun _ => .pure _) h
  | set base property value =>
    cases (show base = .list a from hb)
    exact claim_stands (.bind (indexOf_flag _) fun _ => .bind .heap fun _ =>
      .bind (place_flag _ _) fun _ => setCells_flag _) h
  | readOnly base property =>
    cases (show base = .list a from hb)
    exact claim_stands (.bind (indexOf_flag _) fun _ => .bind .heap fun _ =>
      .bind (place_flag _ _) fun _ => .pure _) h
  | invoke | convert => exact hq.elim

theorem arrays_claims {a : Address} {b : α} (hb : q.subject.1 = .array a) (hq : OfProperty q)
    (h : arrays false q w = .value b u) : u.context.resolved = true := by
  cases q with
  | get base property =>
    cases (show base = .array a from hb)
    exact claim_stands (.bind (indexOf_flag _) fun _ => .bind .heap fun _ => .pure _) h
  | type base property =>
    cases (show base = .array a from hb)
    exact claim_stands (.bind (indexOf_flag _) fun _ => .bind .heap fun _ =>
      .bind (place_flag _ _) fun _ => .pure _) h
  | set base property value =>
    cases (show base = .array a from hb)
    exact claim_stands (.bind (indexOf_flag _) fun _ => .bind .heap fun _ =>
      .bind (place_flag _ _) fun _ => .ite (setCells_flag _) (.fail _)) h
  | readOnly base property =>
    cases (show base = .array a from hb)
    exact claim_stands (.bind (indexOf_flag _) fun _ => .bind .heap fun _ =>
      .bind (place_flag _ _) fun _ => .pure _) h
  | invoke | convert => exact hq.elim

theorem statics_claims {c : ClassId} {b : α} (hb : q.subject.1 = .cls c) (hq : Declares q)
    (hf : isField host w.heap c q.subject.2 = true) (h : statics host handle q w = .value b u) :
    u.context.resolved = true := by
  cases q with
  | type base property =>
    cases (show base = .cls c from hb)
    obtain ⟨_, _, he, hnamed⟩ := Action.bind_eq_value.mp h
    cases he
    obtain ⟨name, _, hn, hrest⟩ := Action.bind_eq_value.mp hnamed
    obtain ⟨hname, rfl⟩ := ofExcept_eq_value.mp hn
    obtain ⟨f, hfield⟩ := Option.isSome_iff_exists.mp (isField_named hname hf)
    simp only [hfield] at hrest
    exact claim_stands (.pure _) hrest
  | set base property value =>
    cases (show base = .cls c from hb)
    obtain ⟨_, _, he, hnamed⟩ := Action.bind_eq_value.mp h
    cases he
    obtain ⟨name, _, hn, hrest⟩ := Action.bind_eq_value.mp hnamed
    obtain ⟨hname, rfl⟩ := ofExcept_eq_value.mp hn
    simp only [isField_named hname hf, if_true] at hrest
    exact claim_stands (.fail _) hrest
  | readOnly base property =>
    cases (show base = .cls c from hb)
    obtain ⟨_, _, he, hnamed⟩ := Action.bind_eq_value.mp h
    cases he
    obtain ⟨name, _, hn, hrest⟩ := Action.bind_eq_value.mp hnamed
    obtain ⟨hname, rfl⟩ := ofExcept_eq_value.mp hn
    simp only [isField_named hname hf, if_true] at hrest
    exact claim_stands (.pure _) hrest
  | get | invoke | convert => exact hq.elim

theorem records_claims {b : α} (hq : Declares q)
    (hr : (recordClass? w.heap q.subject.1).isSome = true)
    (h : records host handle q w = .value b u) : u.context.resolved = true := by
  cases q with
  | type base property =>
    simp only [records, Action.bind_value (Action.heap_apply w),
      show (recordClass? w.heap base).isSome = true from hr, if_true] at h
    exact claim_stands (.pure _) h
  | set base property value =>
    obtain ⟨c, hc⟩ := Option.isSome_iff_exists.mp hr
    simp only [records, Action.bind_value (Action.heap_apply w),
      show recordClass? w.heap base = some c from hc] at h
    exact claim_stands (.bind (.ofExcept _) fun _ => .ite (.fail _) (.fail _)) h
  | readOnly base property =>
    simp only [records, Action.bind_value (Action.heap_apply w),
      show (recordClass? w.heap base).isSome = true from hr, if_true] at h
    exact claim_stands (.pure _) h
  | get | invoke | convert => exact hq.elim

/-- What a property is found to be, of the class of a base that is not null. -/
theorem target?_value {base property : Value} {found : Option (ClassId × String)}
    (hb : base ≠ .null) (h : target? base property w = .value found u) :
    ∃ c name, found = some (c, name) ∧ w.heap.classOf? base = some c ∧
      nameOf w.heap property = .ok name ∧ u = w := by
  have hclass : ∃ c, w.heap.classOf? base = some c := by
    cases base <;> first | exact ⟨_, rfl⟩ | exact absurd rfl hb
  obtain ⟨c, hc⟩ := hclass
  simp only [target?, Action.bind_value (Action.heap_apply w), hc] at h
  obtain ⟨name, _, hn, hfound⟩ := Action.bind_eq_value.mp h
  obtain ⟨hname, rfl⟩ := ofExcept_eq_value.mp hn
  cases hfound
  exact ⟨c, name, rfl, hc, hname, rfl⟩

/-- Only the code of a writer may leave the flag clear, and a write has no answer but that it is
done. -/
theorem beans_claims {b : α} (hnull : q.subject.1 ≠ .null) (hq : Declares q)
    (h : beans host handle ro q w = .value b u) : u.context.resolved = true ∨ b = q.neutral := by
  cases q with
  | type base property =>
    obtain ⟨_, _, ht, hrest⟩ := Action.bind_eq_value.mp h
    obtain ⟨c, name, rfl, -, -, rfl⟩ := target?_value hnull ht
    exact .inl (claim_stands (.bind .heap fun _ => .bind (.ofExcept _) fun _ => .pure _) hrest)
  | readOnly base property =>
    obtain ⟨_, _, ht, hrest⟩ := Action.bind_eq_value.mp h
    obtain ⟨c, name, rfl, -, -, rfl⟩ := target?_value hnull ht
    exact .inl (claim_stands (.ite (.pure _) (.bind .heap fun _ => .bind (.ofExcept _) fun _ =>
      .pure _)) hrest)
  | set base property value => exact .inr rfl
  | get | invoke | convert => exact hq.elim

/-! ## The answer of the chain -/

/-- Lists, maps and arrays. -/
def isCollection : Value → Bool
  | .list _ | .map _ | .array _ => true
  | _ => false

/-- A request that the resolver for the value answers: for collections also one that reads. -/
structure Served (q : Request α) : Prop where
  nonnull : q.subject.1 ≠ .null
  property : OfProperty q
  kind : isCollection q.subject.1 = true ∨ Declares q

theorem Served.declares (hs : Served q) (hb : isCollection q.subject.1 = false) : Declares q := by
  obtain hc | hq := hs.kind
  · rw [hb] at hc
    cases hc
  · exact hq

/-- The resolver for the value claims what it answers, but for a write that runs code of the host. -/
theorem server_claims (hs : Served q) {b : α}
    (h : (server host ro w.heap q.subject.1 q.subject.2).ask (answer host handle) q w = .value b u) :
    u.context.resolved = true ∨
      (server host ro w.heap q.subject.1 q.subject.2 = .beans ro ∧ b = q.neutral) := by
  have hbeans (hq : Declares q) (hr : server host ro w.heap q.subject.1 q.subject.2 = .beans ro) :
      u.context.resolved = true ∨
        (server host ro w.heap q.subject.1 q.subject.2 = .beans ro ∧ b = q.neutral) := by
    rw [hr] at h
    exact (beans_claims hs.nonnull hq h).imp_right fun hn => ⟨hr, hn⟩
  generalize hb : q.subject.1 = base at *
  cases base with
  | null => exact absurd hb hs.nonnull
  | map a => exact .inl (maps_claims hb hs.property h)
  | list a => exact .inl (lists_claims hb hs.property h)
  | array a => exact .inl (arrays_claims hb hs.property h)
  | cls c =>
    have hq : Declares q := hs.declares (by rw [hb]; rfl)
    cases hf : isField host w.heap c q.subject.2 with
    | true =>
      simp only [server, hf, if_true] at h
      exact .inl (statics_claims hb hq hf h)
    | false => exact hbeans hq (by simp [server, hf])
  | object a =>
    have hq : Declares q := hs.declares (by rw [hb]; rfl)
    cases hr : (recordClass? w.heap (.object a)).isSome with
    | true =>
      simp only [server, hr, if_true] at h
      exact .inl (records_claims hq (by rw [hb]; exact hr) h)
    | false => exact hbeans hq (by simp [server, hr])
  | _ =>
    have hq : Declares q := hs.declares (by rw [hb]; rfl)
    exact hbeans hq rfl

/-- The answer of the standard chain is that of the resolver for the value. -/
theorem resolve_server (hw : w.context.layout = .standard [] ro) (hs : Served q) :
    resolve host handle q w =
      (server host ro w.heap q.subject.1 q.subject.2).ask (answer host handle) q
        (w.flagged false) := by
  obtain ⟨before, after, hchain, hforeign, hlast⟩ :=
    server_split host ro hs.nonnull (fun c hc => hs.declares (by rw [hc]; rfl)) w.heap
  have hdeclined : Declined (answer host handle) q before (w.flagged false) (w.flagged false) :=
    declined_of_foreign rfl hforeign
  rw [resolve, askChain_apply, hw, hchain, askAll_declined hdeclined]
  cases hr : (server host ro w.heap q.subject.1 q.subject.2).ask (answer host handle) q
      (w.flagged false) with
  | fault e v => rw [askAll, Action.bind_fault hr]
  | exhausted => rw [askAll, Action.bind_exhausted hr]
  | value b v =>
    cases hv : v.context.resolved with
    | true => exact askAll_cons_resolved hr hv
    | false =>
      have hclaims := server_claims (w := w.flagged false) hs hr
      rw [hv] at hclaims
      obtain hf | ⟨hbeans, rfl⟩ := hclaims
      · cases hf
      · rw [askAll_cons_declined hr hv, hlast hbeans, askAll]
        rfl

/-- Where the claim stands, what is demanded is that answer. -/
theorem require_server (hw : w.context.layout = .standard [] ro) (hs : Served q)
    (hstands : ∀ b u, (server host ro w.heap q.subject.1 q.subject.2).ask (answer host handle) q
      (w.flagged false) = .value b u → u.context.resolved = true) :
    require host handle q.subject.1 q.subject.2 q w =
      (server host ro w.heap q.subject.1 q.subject.2).ask (answer host handle) q
        (w.flagged false) := by
  have hresolve : resolve host handle q w = _ := resolve_server hw hs
  cases hr : (server host ro w.heap q.subject.1 q.subject.2).ask (answer host handle) q
      (w.flagged false) with
  | fault e v => rw [require, Action.bind_fault (hresolve.trans hr)]
  | exhausted => rw [require, Action.bind_exhausted (hresolve.trans hr)]
  | value b v =>
    rw [require, Action.bind_value (hresolve.trans hr),
      Action.bind_value (Action.isResolved_apply v), hstands b v hr]
    rfl

end Resolution

end ExprLang
