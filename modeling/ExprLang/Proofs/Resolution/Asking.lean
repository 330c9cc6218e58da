import ExprLang.Proofs.Resolution.Standard
import ExprLang.Proofs.Value.Conversion

/-! Questions about properties in the standard chain: they leave the values as they are, and no answer is
that something cannot be written. -/

namespace ExprLang

/-- The chain is the standard one, and nobody listens. -/
structure World.Plain (ro : Bool) (w : World) : Prop where
  layout : w.context.layout = .standard [] ro
  listeners : w.context.listeners = []

/-- A later world with the same values, in which other requests may have been claimed. -/
structure World.Unmoved (w u : World) : Prop where
  heap : u.heap = w.heap
  context : { u.context with resolved := w.context.resolved } = w.context

namespace World

variable {ro : Bool} {w u v : World}

theorem Unmoved.refl (w : World) : w.Unmoved w := ⟨rfl, rfl⟩

theorem Unmoved.trans (hu : w.Unmoved u) (hv : u.Unmoved v) : w.Unmoved v where
  heap := hv.heap.trans hu.heap
  context := by
    have hc := congrArg (fun c : Context => { c with resolved := w.context.resolved }) hv.context
    exact hc.trans hu.context

theorem Unmoved.stores (h : w.Unmoved u) : u.context.stores = w.context.stores := by
  have hc := congrArg Context.stores h.context
  exact hc

theorem Unmoved.plain (h : w.Unmoved u) (hw : w.Plain ro) : u.Plain ro := by
  have hl := congrArg Context.layout h.context
  have hn := congrArg Context.listeners h.context
  exact ⟨Eq.trans hl hw.layout, Eq.trans hn hw.listeners⟩

theorem unmoved_flagged (w : World) (b : Bool) : w.Unmoved (w.flagged b) := ⟨rfl, rfl⟩

theorem unmoved_claimed (w : World) (base property : Value) : w.Unmoved (w.claimed base property) :=
  ⟨rfl, rfl⟩

end World

/-! ## Computations that only look -/

/-- A computation comes to a value or to a fault, and leaves the values as they were. The fault does not
say that something cannot be written. -/
def Action.Looks (ro : Bool) {α : Type} (x : Action α) : Prop :=
  ∀ w, w.Plain ro → ∃ u, w.Unmoved u ∧
    ((∃ a, x w = .value a u) ∨ ∃ e, x w = .fault e u ∧ e.kind ≠ .propertyNotWritable)

namespace Action

variable {ro : Bool} {α β : Type} {x : Action α} {f : α → Action β} {w u : World} {e : Fault}

theorem bind_eq_fault :
    (x >>= f) w = .fault e u ↔ x w = .fault e u ∨ ∃ a v, x w = .value a v ∧ f a v = .fault e u := by
  cases h : x w with
  | value a v =>
    rw [bind_value h]
    constructor
    · intro hf
      exact .inr ⟨a, v, rfl, hf⟩
    · rintro (hx | ⟨_, _, hx, hf⟩)
      · cases hx
      · cases hx
        exact hf
  | fault e v => simp [bind_fault h]
  | exhausted => simp [bind_exhausted h]

namespace Looks

theorem value {a : α} (hx : Looks ro x) (hw : w.Plain ro) (h : x w = .value a u) : w.Unmoved u := by
  obtain ⟨v, hv, ⟨b, hb⟩ | ⟨e, he, -⟩⟩ := hx w hw
  · rw [hb] at h
    cases h
    exact hv
  · rw [he] at h
    cases h

theorem fault (hx : Looks ro x) (hw : w.Plain ro) (h : x w = .fault e u) :
    w.Unmoved u ∧ e.kind ≠ .propertyNotWritable := by
  obtain ⟨v, hv, ⟨b, hb⟩ | ⟨d, hd, hkind⟩⟩ := hx w hw
  · rw [hb] at h
    cases h
  · rw [hd] at h
    cases h
    exact ⟨hv, hkind⟩

theorem pure (a : α) : Looks ro (pure a : Action α) := fun w _ => ⟨w, .refl w, .inl ⟨a, rfl⟩⟩

theorem fail (he : e.kind ≠ .propertyNotWritable) : Looks ro (fail e : Action α) := fun w _ =>
  ⟨w, .refl w, .inr ⟨e, rfl, he⟩⟩

theorem heap : Looks ro heap := fun w _ => ⟨w, .refl w, .inl ⟨_, rfl⟩⟩

theorem isResolved : Looks ro isResolved := fun w _ => ⟨w, .refl w, .inl ⟨_, rfl⟩⟩

theorem ofExcept {r : Except Fault α} (hr : ∀ e, r = .error e → e.kind ≠ .propertyNotWritable) :
    Looks ro (ofExcept r) := by
  cases r with
  | ok a => exact .pure a
  | error e => exact .fail (hr e rfl)

theorem bind (hx : Looks ro x) (hf : ∀ a, Looks ro (f a)) : Looks ro (x >>= f) := by
  intro w hw
  obtain ⟨u, hu, ⟨a, ha⟩ | ⟨e, he, hkind⟩⟩ := hx w hw
  · obtain ⟨v, hv, h⟩ := hf a u (hu.plain hw)
    rw [bind_value ha]
    exact ⟨v, hu.trans hv, h⟩
  · exact ⟨u, hu, .inr ⟨e, bind_fault he, hkind⟩⟩

theorem ite {c : Prop} [Decidable c] {y : Action α} (hx : Looks ro x) (hy : Looks ro y) :
    Looks ro (if c then x else y) := by
  split
  · exact hx
  · exact hy

theorem claim (base property : Value) : Looks ro (claim base property) := fun w hw =>
  ⟨w.claimed base property, w.unmoved_claimed base property,
    .inl ⟨(), claim_permitted (World.permits_of_no_listeners hw.listeners _ _)⟩⟩

end Looks

end Action

open Action (Looks)

theorem Conversion.convert_looks {host : Host} {ro : Bool} (v : Value) (t : TypeRef) :
    Looks ro (Conversion.convert host v t) := by
  intro w hw
  rw [convert_standard hw.layout]
  exact Looks.ofExcept (fun _ => (Coercion.toType_refuses t).writable) w hw

namespace Resolution

variable {host : Host} {handle : Handler} {ro : Bool} {α : Type} {q : Request α} {w w' u u' : World}
  {base k x : Value} {e : Fault}

/-! ## Questions -/

/-- A request that only asks what a property holds as declared. -/
def Asks : {α : Type} → Request α → Prop
  | _, .type _ _ => True
  | _, .readOnly _ _ => True
  | _, _ => False

theorem Asks.declares (hq : Asks q) : Declares q := by
  cases q with
  | type | readOnly => trivial
  | get | set | invoke | convert => exact hq.elim

theorem indexOf_looks (k : Value) : Looks ro (indexOf k) :=
  .bind .heap fun _ => .bind
    (.ofExcept fun _ => (Coercion.toTarget_refuses _).writable) fun _ => .pure _

theorem place_looks (index : Int) (length : Nat) : Looks ro (place index length) := by
  unfold place
  split
  · exact .pure _
  · exact .fail nofun

theorem nameOf_looks (h : Heap) (k : Value) : Looks ro (Action.ofExcept (nameOf h k)) := by
  refine .ofExcept fun e he => ?_
  cases k <;> cases he
  exact nofun

theorem property_looks (h : Heap) (p : BeanProperties) (name : String) :
    Looks ro (Action.ofExcept (property h p name)) := by
  refine .ofExcept fun e he => ?_
  unfold property at he
  split at he <;> cases he
  exact nofun

theorem maps_looks {r : Bool} (hq : Asks q) : Looks ro (maps r q) := by
  cases q with
  | type base k =>
    cases base <;> first | exact .pure _ | exact .bind (.claim _ _) fun _ => .pure _
  | readOnly base k =>
    cases base <;> first | exact .pure _ | exact .bind (.claim _ _) fun _ => .pure _
  | get | set | invoke | convert => exact hq.elim

theorem lists_looks {r : Bool} (hq : Asks q) : Looks ro (lists r q) := by
  have hplace (k : Value) {a : Address} {β : Type} (b : β) : Looks ro (do
      Action.claim (.list a) k
      let index ← indexOf k
      let _ ← place index ((← Action.heap).items a).length
      pure b) :=
    .bind (.claim _ _) fun _ => .bind (indexOf_looks k) fun _ => .bind .heap fun _ =>
      .bind (place_looks _ _) fun _ => .pure _
  cases q with
  | type base k => cases base <;> first | exact .pure _ | exact hplace k _
  | readOnly base k => cases base <;> first | exact .pure _ | exact hplace k _
  | get | set | invoke | convert => exact hq.elim

theorem arrays_looks {r : Bool} (hq : Asks q) : Looks ro (arrays r q) := by
  have hplace (k : Value) {a : Address} {β : Type} (b : Heap → β) : Looks ro (do
      Action.claim (.array a) k
      let index ← indexOf k
      let h ← Action.heap
      let _ ← place index (h.array a).2.length
      pure (b h)) :=
    .bind (.claim _ _) fun _ => .bind (indexOf_looks k) fun _ => .bind .heap fun _ =>
      .bind (place_looks _ _) fun _ => .pure _
  cases q with
  | type base k =>
    cases base <;> first | exact .pure _ | exact hplace k fun h => some (h.array _).1
  | readOnly base k => cases base <;> first | exact .pure _ | exact hplace k fun _ => r
  | get | set | invoke | convert => exact hq.elim

theorem statics_looks (hq : Asks q) : Looks ro (statics host handle q) := by
  cases q with
  | type base k =>
    cases base with
    | cls c =>
      refine .bind .heap fun h => .bind (nameOf_looks h k) fun name => ?_
      cases (host.classes.members c).field? name with
      | some f => exact .bind (.claim _ _) fun _ => .pure _
      | none => exact .pure _
    | _ => exact .pure _
  | readOnly base k =>
    cases base with
    | cls c =>
      refine .bind .heap fun h => .bind (nameOf_looks h k) fun name => ?_
      exact .ite (.bind (.claim _ _) fun _ => .pure _) (.pure _)
    | _ => exact .pure _
  | get | set | invoke | convert => exact hq.elim

theorem records_looks (hq : Asks q) : Looks ro (records host handle q) := by
  cases q with
  | type base k =>
    exact .bind .heap fun _ => .ite (.bind (.claim _ _) fun _ => .pure _) (.pure _)
  | readOnly base k =>
    exact .bind .heap fun _ => .ite (.bind (.claim _ _) fun _ => .pure _) (.pure _)
  | get | set | invoke | convert => exact hq.elim

theorem target?_looks (base k : Value) : Looks ro (target? base k) := by
  refine .bind .heap fun h => ?_
  split
  · exact .pure _
  · exact .bind (nameOf_looks h k) fun _ => .pure _

theorem beans_looks {r : Bool} (hq : Asks q) : Looks ro (beans host handle r q) := by
  cases q with
  | type base k =>
    refine .bind (target?_looks base k) fun found => ?_
    cases found with
    | none => exact .pure _
    | some found =>
      exact .bind (.claim _ _) fun _ => .bind .heap fun h =>
        .bind (property_looks h _ _) fun _ => .pure _
  | readOnly base k =>
    refine .bind (target?_looks base k) fun found => ?_
    cases found with
    | none => exact .pure _
    | some found =>
      exact .bind (.claim _ _) fun _ => .ite (.pure _) <| .bind .heap fun h =>
        .bind (property_looks h _ _) fun _ => .pure _
  | get | set | invoke | convert => exact hq.elim

/-- Which resolver of the standard chain answers for a property of a value. -/
inductive Serves (host : Host) (ro : Bool) (h : Heap) (k : Value) : Value → Resolver → Prop where
  | map (a : Address) : Serves host ro h k (.map a) (.maps false)
  | list (a : Address) : Serves host ro h k (.list a) (.lists false)
  | array (a : Address) : Serves host ro h k (.array a) (.arrays false)
  | field (c : ClassId) : isField host h c k = true → Serves host ro h k (.cls c) .statics
  | component (base : Value) : (recordClass? h base).isSome = true → Serves host ro h k base .records
  | bean (base : Value) : Serves host ro h k base (.beans ro)

theorem serves_server (host : Host) (ro : Bool) (h : Heap) (base k : Value) :
    Serves host ro h k base (server host ro h base k) := by
  cases base with
  | map a => exact .map a
  | list a => exact .list a
  | array a => exact .array a
  | cls c =>
    cases hf : isField host h c k with
    | true =>
      rw [server, if_pos hf]
      exact .field c hf
    | false =>
      rw [server, hf]
      exact .bean _
  | object a =>
    cases hr : (recordClass? h (.object a)).isSome with
    | true =>
      simp only [server, hr, if_true]
      exact .component _ hr
    | false =>
      simp only [server, hr]
      exact .bean _
  | _ => exact .bean _

theorem server_looks (h : Heap) (hq : Asks q) :
    Looks ro ((server host ro h base k).ask (answer host handle) q) := by
  have hserves := serves_server host ro h base k
  generalize server host ro h base k = r at hserves ⊢
  cases hserves with
  | map => exact maps_looks hq
  | list => exact lists_looks hq
  | array => exact arrays_looks hq
  | field => exact statics_looks hq
  | component => exact records_looks hq
  | bean => exact beans_looks hq

section Chain
variable (hbase : base ≠ .null)
include hbase

/-- A question about a value is answered by its resolver. -/
theorem resolve_asked (hw : w.Plain ro) (hq : Asks q) (hb : q.subject.1 = base) :
    resolve host handle q w =
      (server host ro w.heap q.subject.1 q.subject.2).ask (answer host handle) q
        (w.flagged false) := by
  refine resolve_server hw.layout ⟨hb ▸ hbase, ?_, .inr hq.declares⟩
  cases q with
  | type | readOnly => trivial
  | get | set | invoke | convert => exact hq.elim

theorem resolve_looks (hq : Asks q) (hb : q.subject.1 = base) :
    Looks ro (resolve host handle q) := by
  intro w hw
  rw [resolve_asked hbase hw hq hb]
  have hlooks : Looks ro ((server host ro w.heap q.subject.1 q.subject.2).ask (answer host handle) q) :=
    server_looks w.heap hq
  obtain ⟨u, hu, h⟩ := hlooks _ ((w.unmoved_flagged false).plain hw)
  exact ⟨u, (w.unmoved_flagged false).trans hu, h⟩

theorem convertForWrite_looks (k x : Value) :
    Looks ro (Evaluation.convertForWrite host handle base k x) := by
  refine .bind (resolve_looks hbase trivial rfl) fun t => .bind .isResolved fun _ => ?_
  cases t with
  | none => exact .pure _
  | some t => exact .ite (Conversion.convert_looks x t) (.pure _)

/-- What is answered when a question is put on behalf of a caller that needs an answer. -/
theorem require_asked {a : α} (hw : w.Plain ro) (hq : Asks q) (hb : q.subject.1 = base)
    (h : require host handle q.subject.1 q.subject.2 q w = .value a u) :
    w.Unmoved u ∧ (server host ro w.heap q.subject.1 q.subject.2).ask (answer host handle) q
      (w.flagged false) = .value a u := by
  obtain ⟨b, v, hb', hrest⟩ := Action.bind_eq_value.mp h
  have hv := (resolve_looks hbase hq hb).value hw hb'
  rw [resolve_asked hbase hw hq hb] at hb'
  rw [Action.bind_value (Action.isResolved_apply v)] at hrest
  split at hrest
  · cases hrest
    exact ⟨hv, hb'⟩
  · cases hrest

end Chain

end Resolution

end ExprLang
