import ExprLang.Proofs.Resolution.Asking
import ExprLang.Proofs.Resolution.Collections

/-! Writes to properties in the standard chain: a property that is read-only refuses every value, and one
that is not takes every value that can be converted, unless the code of its writer says otherwise. -/

namespace ExprLang

open Action (Looks)

namespace Resolution

variable {host : Host} {handle : Handler} {ro : Bool} {α : Type} {w w' u u' : World}
  {base k x : Value} {e : Fault}

/-! ## Refused writes -/

/-- A computation fails and leaves the values as they were. -/
def Refused (x : Action α) (w : World) : Prop := ∃ e u, x w = .fault e u ∧ w.Unmoved u

/-- What follows a computation that only looks is refused with it, or comes to an outcome of its own. -/
theorem refused_or_bind {β : Type} {y : Action β} {f : β → Action α} {P : Outcome α → Prop}
    (hy : Looks ro y) (hw : w.Plain ro)
    (hf : ∀ b u, y w = .value b u → w.Unmoved u → u.Plain ro → Refused (f b) u ∨ P (f b u)) :
    Refused (y >>= f) w ∨ P ((y >>= f) w) := by
  obtain ⟨u, hu, ⟨b, hb⟩ | ⟨e, he, -⟩⟩ := hy w hw
  · rw [Action.bind_value hb]
    refine (hf b u hb hu (hu.plain hw)).imp_left fun ⟨e, v, hfault, hv⟩ => ?_
    exact ⟨e, v, (Action.bind_value hb).trans hfault, hu.trans hv⟩
  · exact .inl ⟨e, u, Action.bind_fault he, hu⟩

theorem refused_or_ite {c : Prop} [Decidable c] {y z : Action α} {P : Outcome α → Prop}
    (hy : Refused y w ∨ P (y w)) (hz : Refused z w ∨ P (z w)) :
    Refused (if c then y else z) w ∨ P ((if c then y else z) w) := by
  split
  · exact hy
  · exact hz

theorem Refused.bind {β : Type} {y : Action β} {f : β → Action α} (hy : Looks ro y) (hw : w.Plain ro)
    (hf : ∀ b u, y w = .value b u → w.Unmoved u → u.Plain ro → Refused (f b) u) :
    Refused (y >>= f) w :=
  (refused_or_bind (P := fun _ => False) hy hw fun b u hb hu hplain =>
    .inl (hf b u hb hu hplain)).resolve_right id

theorem Refused.fail (e : Fault) (w : World) : Refused (Action.fail e : Action α) w :=
  ⟨e, w, rfl, .refl w⟩

theorem statics_set_refused {c : ClassId} (hw : w.Plain ro)
    (hf : isField host w.heap c k = true) : Refused (statics host handle (.set (.cls c) k x)) w := by
  refine .bind .heap hw fun h _ hheap _ _ => ?_
  cases hheap
  refine .bind (nameOf_looks _ k) hw fun name _ hn _ _ => ?_
  obtain ⟨hname, rfl⟩ := ofExcept_eq_value.mp hn
  simp only [isField_named hname hf, if_true]
  exact .bind (.claim _ _) hw fun _ _ _ _ _ => .fail _ _

theorem records_set_refused (hw : w.Plain ro) (hr : (recordClass? w.heap base).isSome = true) :
    Refused (records host handle (.set base k x)) w := by
  obtain ⟨c, hc⟩ := Option.isSome_iff_exists.mp hr
  refine .bind .heap hw fun h _ hheap _ _ => ?_
  cases hheap
  simp only [hc]
  refine .bind (.claim _ _) hw fun _ _ _ _ hu => .bind (nameOf_looks _ k) hu fun name v _ _ _ => ?_
  split
  · exact .fail _ v
  · exact .fail _ v

/-- What the property of a value is found to be, as one of a bean. -/
def HasProperty (host : Host) (h : Heap) (base k : Value) (p : BeanProperty) : Prop :=
  ∃ c name, h.classOf? base = some c ∧ nameOf h k = .ok name ∧
    (BeanProperties.ofClass host.classes c).find? name = some p

theorem property_eq_ok {h : Heap} {ps : BeanProperties} {name : String} {p : BeanProperty} :
    property h ps name = .ok p ↔ ps.find? name = some p := by
  unfold property
  cases ps.find? name with
  | some q => simp
  | none => simp

theorem beans_readOnly_value {r t : Bool} (hbase : base ≠ .null)
    (h : beans host handle r (.readOnly base k) w = .value t u) :
    (r = true ∧ t = true) ∨ (r = false ∧ ∃ p, HasProperty host w.heap base k p ∧ t = p.isReadOnly) := by
  obtain ⟨_, _, htarget, hrest⟩ := Action.bind_eq_value.mp h
  obtain ⟨c, name, rfl, hclass, hname, rfl⟩ := target?_value hbase htarget
  obtain ⟨_, hanswer⟩ := claim_bind_eq_value.mp hrest
  cases r with
  | true =>
    cases hanswer
    exact .inl ⟨rfl, rfl⟩
  | false =>
    obtain ⟨_, _, hheap, hfound⟩ := Action.bind_eq_value.mp hanswer
    cases hheap
    obtain ⟨p, _, hp, ht⟩ := Action.bind_eq_value.mp hfound
    obtain ⟨hproperty, rfl⟩ := ofExcept_eq_value.mp hp
    cases ht
    exact .inr ⟨rfl, p, ⟨c, name, hclass, hname, property_eq_ok.mp hproperty⟩, rfl⟩

theorem beans_set_refused {r : Bool} (hbase : base ≠ .null) (hw : w.Plain ro)
    (h : r = true ∨ ∃ p, HasProperty host w.heap base k p ∧ p.isReadOnly = true) :
    Refused (beans host handle r (.set base k x)) w := by
  refine .bind (target?_looks base k) hw fun _ _ htarget _ _ => ?_
  obtain ⟨c, name, rfl, hclass, hname, rfl⟩ := target?_value hbase htarget
  refine .bind (.claim base k) hw fun _ v hclaim _ hv => ?_
  obtain ⟨-, rfl⟩ := Action.claim_eq_value.mp hclaim
  obtain rfl | ⟨p, ⟨d, other, hd, hother, hp⟩, hreadOnly⟩ := h
  · exact .fail _ _
  cases r with
  | true => exact .fail _ _
  | false =>
    refine .bind .heap hv fun g _ hheap _ _ => ?_
    cases hheap
    refine .bind (property_looks _ _ _) hv fun found _ hfound _ _ => ?_
    obtain ⟨hproperty, rfl⟩ := ofExcept_eq_value.mp hfound
    -- The property is the one that was asked for, so it has no writer.
    cases hd.symm.trans hclass
    cases hother.symm.trans hname
    cases hp.symm.trans (property_eq_ok.mp hproperty)
    rw [Option.isNone_iff_eq_none.mp hreadOnly]
    exact .fail _ _

/-- The resolver for a value refuses to write what it says is read-only. -/
theorem Serves.set_refused {r : Resolver} (hr : Serves host ro w.heap k base r) (hbase : base ≠ .null)
    (hw' : w'.Plain ro) (hheap : w'.heap = w.heap)
    (h : r.ask (answer host handle) (.readOnly base k) w = .value true u) :
    Refused (r.ask (answer host handle) (.set base k x)) w' := by
  cases hr with
  | map a =>
    obtain ⟨-, hanswer⟩ := claim_bind_eq_value.mp h
    cases hanswer
  | list a =>
    obtain ⟨-, hanswer⟩ := (claim_bind_eq_value (f := atSlot k (fun h => (h.items a).length) fun _ _ =>
      pure false)).mp h
    cases (atSlot_pure.mp hanswer).2.1
  | array a =>
    obtain ⟨-, hanswer⟩ := (claim_bind_eq_value (f := atSlot k (fun h => (h.array a).2.length) fun _ _ =>
      pure false)).mp h
    cases (atSlot_pure.mp hanswer).2.1
  | field c hf =>
    show Refused (statics host handle (.set (.cls c) k x)) w'
    exact statics_set_refused hw' (hheap ▸ hf)
  | component base hc =>
    show Refused (records host handle (.set base k x)) w'
    exact records_set_refused hw' (hheap ▸ hc)
  | bean base =>
    show Refused (beans host handle ro (.set base k x)) w'
    change beans host handle ro (.readOnly base k) w = .value true u at h
    refine beans_set_refused hbase hw' ?_
    rw [hheap]
    obtain ⟨rfl, -⟩ | ⟨-, p, hp, ht⟩ := beans_readOnly_value hbase h
    · exact .inl rfl
    · exact .inr ⟨p, hp, ht.symm⟩

/-! ## Writes that are taken -/

/-- A computation that may write: nobody comes to listen, and no fault says that something cannot be
written. -/
def Lenient (ro : Bool) (x : Action α) : Prop :=
  ∀ w, w.Plain ro → (∀ a u, x w = .value a u → u.Plain ro) ∧
    ∀ e u, x w = .fault e u → e.kind ≠ .propertyNotWritable

namespace Lenient
variable {y : Action α}

theorem of_looks (hy : Looks ro y) : Lenient ro y := fun _ hw =>
  ⟨fun _ _ h => (hy.value hw h).plain hw, fun _ _ h => (hy.fault hw h).2⟩

theorem bind {β : Type} {f : α → Action β} (hy : Lenient ro y) (hf : ∀ a, Lenient ro (f a)) :
    Lenient ro (y >>= f) := by
  intro w hw
  constructor
  · intro b u h
    obtain ⟨a, v, ha, hb⟩ := Action.bind_eq_value.mp h
    exact (hf a v ((hy w hw).1 a v ha)).1 b u hb
  · intro e u h
    obtain he | ⟨a, v, ha, he⟩ := Action.bind_eq_fault.mp h
    · exact (hy w hw).2 e u he
    · exact (hf a v ((hy w hw).1 a v ha)).2 e u he

theorem ite {c : Prop} [Decidable c] {z : Action α} (hy : Lenient ro y) (hz : Lenient ro z) :
    Lenient ro (if c then y else z) := by
  split
  · exact hy
  · exact hz

theorem pure (a : α) : Lenient ro (pure a : Action α) := .of_looks (.pure a)

theorem heap : Lenient ro Action.heap := .of_looks .heap

theorem claim (base k : Value) : Lenient ro (Action.claim base k) := .of_looks (.claim base k)

theorem setCells (h : Heap) : Lenient ro (Action.setCells h) := fun _ hw =>
  ⟨fun _ _ h => by cases h; exact ⟨hw.layout, hw.listeners⟩, nofun⟩

end Lenient

theorem maps_set_lenient (a : Address) : Lenient ro (maps false (.set (.map a) k x)) :=
  .bind (.claim _ _) fun _ => .bind .heap fun _ => .setCells _

theorem lists_set_lenient (a : Address) : Lenient ro (lists false (.set (.list a) k x)) :=
  .bind (.claim _ _) fun _ => .bind (.of_looks (indexOf_looks k)) fun _ => .bind .heap fun _ =>
    .bind (.of_looks (place_looks _ _)) fun _ => .setCells _

theorem arrays_set_lenient (a : Address) : Lenient ro (arrays false (.set (.array a) k x)) := by
  refine .bind (.claim _ _) fun _ => .bind (.of_looks (indexOf_looks k)) fun _ => .bind .heap fun h =>
    .bind (.of_looks (place_looks _ _)) fun _ => ?_
  exact .ite (.setCells _) (.of_looks (.fail nofun))

end Resolution

/-! ## Code of the host -/

/-- A computation that comes to a value, unless it never ends. -/
def Action.Faultless {α : Type} (x : Action α) : Prop := ∀ w e u, x w ≠ .fault e u

namespace Action.Faultless

variable {α β : Type} {x : Action α} {f : α → Action β}

theorem bind (hx : Faultless x) (hf : ∀ a, Faultless (f a)) : Faultless (x >>= f) := by
  intro w e u h
  obtain he | ⟨a, v, -, he⟩ := bind_eq_fault.mp h
  · exact hx w e u he
  · exact hf a v e u he

theorem attempt (x : Action α) : Faultless (attempt x) := by
  intro w e u h
  unfold Action.attempt at h
  split at h <;> cases h

end Action.Faultless

variable {host : Host} {handle : Handler} {ro : Bool} {w u : World} {e : Fault}

/-- Failures of the host's code are results. -/
theorem HostCode.perform_faultless (c : HostCode) : (c.perform host handle).Faultless := by
  induction c with
  | finish r => exact nofun
  | read next ih => exact .bind nofun fun h => ih h
  | write h next ih => exact .bind nofun fun _ => ih
  | bean name next ih => exact .bind nofun fun c => ih _
  | call f args next ih => exact .bind (.attempt _) fun r => ih r
  | evaluate text next ih => exact .bind (.attempt _) fun r => ih r
  | typeOf text next ih => exact .bind (.attempt _) fun r => ih r
  | readOnly text next ih => exact .bind (.attempt _) fun r => ih r
  | assign text v next ih => exact .bind (.attempt _) fun r => ih r

namespace Method

variable {m : Method} {self : Value} {args : List Value}

open Resolution (Lenient)

/-- The code of a method returned a failure that is this fault. -/
def Raises (host : Host) (handle : Handler) (m : Method) (self : Value) (e : Fault) : Prop :=
  ∃ code args w u r, m.body = some code ∧
    (code self args).perform host handle w = .value (.error r) u ∧ r.toFault = e

theorem run_fault (h : m.run host handle self args w = .fault e u) :
    e.kind ≠ .propertyNotWritable ∨ m.Raises host handle self e := by
  unfold Method.run at h
  cases hbody : m.body with
  | none =>
    rw [hbody] at h
    cases h
    exact .inl nofun
  | some code =>
    rw [hbody] at h
    obtain hfault | ⟨r, v, hr, hend⟩ := Action.bind_eq_fault.mp h
    · exact absurd hfault (HostCode.perform_faultless _ _ _ _)
    · cases r with
      | ok a => cases hend
      | error r =>
        cases hend
        exact .inr ⟨code, args, w, u, r, hbody, hr, rfl⟩

theorem convertAll_looks (types : List TypeRef) (args : List Value) :
    Looks ro (convertAll host types args) := by
  induction types generalizing args with
  | nil => exact .pure _
  | cons t types ih =>
    cases args with
    | nil => exact .pure _
    | cons v args =>
      exact .bind (Conversion.convert_looks v t) fun _ => .bind (ih args) fun _ => .pure _

theorem prepare_lenient (m : Method) (args : List Value) : Lenient ro (m.prepare host args) := by
  have hconvert (types : List TypeRef) (vs : List Value) : Lenient ro (convertAll host types vs) :=
    .of_looks (convertAll_looks types vs)
  refine .bind .heap fun h => ?_
  split
  · exact .bind (hconvert _ _) fun _ => .bind (hconvert _ _) fun _ =>
      .bind (.bind .heap fun _ => .bind (.setCells _) fun _ => .pure _) fun _ => .pure _
  · exact .ite (hconvert _ _) (.of_looks (.fail nofun))

/-- A call that says that something cannot be written says so with the words of the host's code. -/
theorem invoke_fault (hw : w.Plain ro) (h : m.invoke host handle self args w = .fault e u) :
    e.kind ≠ .propertyNotWritable ∨ m.Raises host handle self e := by
  rw [invoke_eq] at h
  obtain hprepare | ⟨vs, v, -, hrun⟩ := Action.bind_eq_fault.mp h
  · exact .inl ((prepare_lenient m args w hw).2 e u hprepare)
  · exact run_fault hrun

end Method

namespace Resolution

variable {base k x : Value} {w' u' : World}

/-- The writer of a property of a value raised the fault. -/
def RaisedByWriter (host : Host) (handle : Handler) (h : Heap) (base k : Value) (e : Fault) : Prop :=
  ∃ p m, HasProperty host h base k p ∧ p.writer = some m ∧ m.Raises host handle base e

theorem beans_set_fault (hbase : base ≠ .null) (hw : w.Plain ro) {p : BeanProperty}
    (hp : HasProperty host w.heap base k p) (hwriter : p.isReadOnly = false)
    (h : beans host handle false (.set base k x) w = .fault e u) :
    e.kind ≠ .propertyNotWritable ∨ RaisedByWriter host handle w.heap base k e := by
  obtain ⟨c, name, hclass, hname, hfound⟩ := hp
  obtain hfault | ⟨_, _, htarget, hrest⟩ := Action.bind_eq_fault.mp h
  · exact .inl ((target?_looks base k).fault hw hfault).2
  obtain ⟨d, other, rfl, hd, hother, hsame⟩ := target?_value hbase htarget
  rw [hsame] at hrest
  obtain hfault | ⟨_, v, hclaim, hrest⟩ := Action.bind_eq_fault.mp hrest
  · exact .inl ((Looks.claim base k).fault hw hfault).2
  obtain ⟨-, rfl⟩ := Action.claim_eq_value.mp hclaim
  have hplain : (w.claimed base k).Plain ro := (w.unmoved_claimed base k).plain hw
  obtain hfault | ⟨_, _, hheap, hrest⟩ := Action.bind_eq_fault.mp hrest
  · cases hfault
  cases hheap
  obtain hfault | ⟨q, v, hq, hrest⟩ := Action.bind_eq_fault.mp hrest
  · exact .inl ((property_looks _ _ _).fault hplain hfault).2
  obtain ⟨hproperty, rfl⟩ := ofExcept_eq_value.mp hq
  -- The property is the one that was asked for, so it has a writer.
  cases hd.symm.trans hclass
  cases hother.symm.trans hname
  cases (property_eq_ok.mp hproperty).symm.trans hfound
  obtain ⟨m, hm⟩ : ∃ m, p.writer = some m := by
    rw [BeanProperty.isReadOnly, Option.isNone_eq_false_iff] at hwriter
    exact Option.isSome_iff_exists.mp hwriter
  rw [hm] at hrest
  obtain hfault | ⟨_, _, -, hpure⟩ := Action.bind_eq_fault.mp hrest
  · exact (Method.invoke_fault hplain hfault).imp_right fun hraises =>
      ⟨p, m, ⟨c, name, hclass, hname, hfound⟩, hm, hraises⟩
  · cases hpure

/-- The resolver for a value takes what it says can be written, unless the code of a writer says
otherwise. -/
theorem Serves.set_fault {r : Resolver} (hr : Serves host ro w.heap k base r) (hbase : base ≠ .null)
    (hw' : w'.Plain ro) (hheap : w'.heap = w.heap)
    (h : r.ask (answer host handle) (.readOnly base k) w = .value false u)
    (hset : r.ask (answer host handle) (.set base k x) w' = .fault e u') :
    e.kind ≠ .propertyNotWritable ∨ RaisedByWriter host handle w.heap base k e := by
  cases hr with
  | map a =>
    change maps false (.set (.map a) k x) w' = .fault e u' at hset
    exact .inl ((maps_set_lenient a w' hw').2 e u' hset)
  | list a =>
    change lists false (.set (.list a) k x) w' = .fault e u' at hset
    exact .inl ((lists_set_lenient a w' hw').2 e u' hset)
  | array a =>
    change arrays false (.set (.array a) k x) w' = .fault e u' at hset
    exact .inl ((arrays_set_lenient a w' hw').2 e u' hset)
  | field c hf =>
    obtain ⟨_, _, hheap', hrest⟩ := Action.bind_eq_value.mp h
    cases hheap'
    obtain ⟨name, _, hn, hanswer⟩ := Action.bind_eq_value.mp hrest
    obtain ⟨hname, rfl⟩ := ofExcept_eq_value.mp hn
    simp only [isField_named hname hf, if_true] at hanswer
    obtain ⟨_, _, -, hpure⟩ := Action.bind_eq_value.mp hanswer
    cases hpure
  | component base hc =>
    obtain ⟨_, _, hheap', hrest⟩ := Action.bind_eq_value.mp h
    cases hheap'
    simp only [hc, if_true] at hrest
    obtain ⟨_, _, -, hpure⟩ := Action.bind_eq_value.mp hrest
    cases hpure
  | bean base =>
    change beans host handle ro (.readOnly base k) w = .value false u at h
    obtain ⟨-, ht⟩ | ⟨rfl, p, hp, ht⟩ := beans_readOnly_value hbase h
    · cases ht
    · change beans host handle false (.set base k x) w' = .fault e u' at hset
      rw [← hheap] at hp ⊢
      exact beans_set_fault hbase hw' hp ht.symm hset

/-! ## Writes to the chain -/

/-- Writes a value to a property, as one of the declared type. -/
def write (host : Host) (handle : Handler) (base k x : Value) : Action Unit := do
  let y ← Evaluation.convertForWrite host handle base k x
  set host handle base k y

/-- While values stay as they are, the same resolver answers for a property. -/
theorem serves_unmoved (host : Host) (ro : Bool) (base k : Value) (h : w.Unmoved u) :
    Serves host ro (w.flagged false).heap k base (server host ro u.heap base k) := by
  rw [h.heap]
  exact serves_server _ _ _ _ _

section Chain
variable (hbase : base ≠ .null) (hw : w.Plain ro)
include hbase hw

theorem resolve_set :
    resolve host handle (.set base k x) w =
      (server host ro w.heap base k).ask (answer host handle) (.set base k x) (w.flagged false) :=
  resolve_server hw.layout ⟨hbase, trivial, .inr trivial⟩

/-- A property that is read-only refuses every value. -/
theorem write_refused (h : readOnly host handle base k w = .value true u) :
    w.Unmoved u ∧ Refused (write host handle base k x) w := by
  obtain ⟨hu, hanswer⟩ := require_asked (q := .readOnly base k) hbase hw trivial rfl h
  refine ⟨hu, .bind (convertForWrite_looks hbase k x) hw fun y v _ hv hplain => ?_⟩
  have hserves := serves_unmoved host ro base k hv
  rw [← hv.heap] at hanswer
  obtain ⟨e, v', hset, hv'⟩ := hserves.set_refused hbase
    ((v.unmoved_flagged false).plain hplain) hv.heap (x := y) hanswer
  refine ⟨e, v', ?_, (v.unmoved_flagged false).trans hv'⟩
  exact Action.bind_fault ((resolve_set hbase hplain).trans hset)

/-- A property that is not read-only takes every value that can be converted, unless the code of a writer
says otherwise. -/
theorem write_fault (h : readOnly host handle base k w = .value false u)
    (hfault : write host handle base k x w = .fault e u') :
    e.kind ≠ .propertyNotWritable ∨ RaisedByWriter host handle w.heap base k e := by
  obtain ⟨-, hanswer⟩ := require_asked (q := .readOnly base k) hbase hw trivial rfl h
  obtain hconvert | ⟨y, v, hconvert, hset⟩ := Action.bind_eq_fault.mp hfault
  · exact .inl ((convertForWrite_looks hbase k x).fault hw hconvert).2
  have hv := (convertForWrite_looks hbase k x).value hw hconvert
  have hplain := hv.plain hw
  have hserves := serves_unmoved host ro base k hv
  rw [← hv.heap] at hanswer
  obtain hset | ⟨_, v', -, hrest⟩ := Action.bind_eq_fault.mp hset
  · rw [resolve_set hbase hplain] at hset
    exact hserves.set_fault hbase ((v.unmoved_flagged false).plain hplain) hv.heap hanswer hset
  · rw [Action.bind_value (Action.isResolved_apply v')] at hrest
    split at hrest
    · cases hrest
    · cases hrest
      refine .inl ?_
      unfold unclaimed
      split <;> exact nofun

end Chain

/-! ## Names -/

/-- Of a name, the store says that it can be written, or nobody says anything. -/
theorem resolve_readOnly_name (host : Host) (handle : Handler) (name : String) (hw : w.Plain ro) :
    ∃ u, resolve host handle (.readOnly .null (.text name)) w = .value false u := by
  let v := w.flagged false
  have hpermits : v.Permits .null (.text name) := World.permits_of_no_listeners hw.listeners _ _
  have hknown : knownName? 0 .null (.text name) v =
      .value ((some name).filter (v.context.store 0).contains) v := rfl
  rw [resolve, askChain_apply, hw.layout]
  cases hname : (v.context.store 0).contains name with
  | true =>
    have hask : (Resolver.names 0).ask (answer host handle) (.readOnly .null (.text name)) v =
        .value false (v.claimed .null (.text name)) := by
      show names 0 (.readOnly .null (.text name)) v = _
      rw [names, Action.bind_value hknown, Option.filter_some, hname]
      exact Action.bind_value (Action.claim_permitted hpermits)
    exact ⟨_, askAll_cons_resolved hask rfl⟩
  | false =>
    have hask : (Resolver.names 0).ask (answer host handle) (.readOnly .null (.text name)) v =
        .value false v := by
      show names 0 (.readOnly .null (.text name)) v = _
      rw [names, Action.bind_value hknown, Option.filter_some, hname]
      rfl
    have hdeclined : Declined (answer host handle) (.readOnly .null (.text name))
        [.group [], .statics, .maps false, .lists false, .arrays false, .records] v v := by
      refine declined_of_foreign rfl ?_
      simp [Foreign, Request.subject, recordClass?]
    exact ⟨v, (askAll_cons_declined hask rfl).trans (askAll_declined hdeclined [.beans ro])⟩

/-- A name that nothing hides is never read-only. -/
theorem readOnly_name {name : String} {t : Bool} (hw : w.Plain ro)
    (h : readOnly host handle .null (.text name) w = .value t u) : t = false := by
  obtain ⟨v, hv⟩ := resolve_readOnly_name host handle name hw
  rw [readOnly, require, Action.bind_value hv, Action.bind_value (Action.isResolved_apply v)] at h
  split at h
  · cases h
    rfl
  · cases h

/-- A name that nothing hides can be written. It gets the value in the store of the chain. -/
theorem set_name (host : Host) (handle : Handler) (x : Value) (name : String) (hw : w.Plain ro) :
    ∃ u, set host handle .null (.text name) x w = .value () u ∧ u.heap = w.heap ∧
      u.context.stores =
        w.context.stores.setIfInBounds 0 ((w.context.stores.getD 0 []).insert name x) := by
  have hpermits : (w.flagged false).Permits .null (.text name) :=
    World.permits_of_no_listeners hw.listeners _ _
  obtain ⟨v, hnames, hv, hleft⟩ : ∃ v, (Resolver.names 0).ask (answer host handle)
      (.set .null (.text name) x) (w.flagged false) = .value () v ∧ v.context.resolved = true ∧
        v.heap = w.heap ∧ v.context.stores =
          w.context.stores.setIfInBounds 0 ((w.context.stores.getD 0 []).insert name x) :=
    ⟨_, Action.bind_value (Action.claim_permitted hpermits), rfl, rfl, rfl⟩
  have hresolve : resolve host handle (.set .null (.text name) x) w = .value () v := by
    rw [resolve, askChain_apply, hw.layout]
    exact askAll_cons_resolved hnames hv
  refine ⟨v, ?_, hleft⟩
  rw [set, require, Action.bind_value hresolve, Action.bind_value (Action.isResolved_apply v), hv]
  rfl

/-! ## Items -/

/-- The item that an assignment stores is there where the value is null and may stay so, or has a
counterpart in the type of the items. -/
theorem itemFor_isOk_iff {h : Heap} :
    (∃ y, h.itemFor base x = .ok y) ↔
      (x.isNull = true ∧ (h.component base).isPrimitive = false) ∨
        ∃ y, Coercion.toType h (h.component base) x = .ok y := by
  unfold Heap.itemFor
  cases hx : x.isNull with
  | false => simp
  | true =>
    cases hp : (h.component base).isPrimitive with
    | true => simp
    | false => simp

theorem itemFor_takes {h : Heap} {y : Value} (hy : h.itemFor base x = .ok y) :
    h.Takes (h.component base) y := by
  unfold Heap.itemFor at hy
  split at hy
  · exact (Coercion.toType_takes hy).1
  · next hnull =>
    cases hy
    simp only [Bool.or_eq_true, Bool.not_eq_true', not_or, Bool.not_eq_false, Bool.not_eq_true]
      at hnull
    obtain ⟨hx, hp⟩ := hnull
    cases x with
    | null => exact hp
    | _ => cases hx

/-- What the type of the items takes can be stored at a place that there is. -/
theorem store?_isSome {h : Heap} (hb : isCollection base = true) (hplace : h.HasPlace base k)
    (hx : h.Takes (h.component base) x) : ∃ g, h.store? base k x = some g := by
  cases base with
  | map a => exact ⟨_, rfl⟩
  | list a =>
    obtain ⟨i, hi⟩ := Option.isSome_iff_exists.mp hplace
    exact ⟨_, Heap.store?_list_eq_some.mpr ⟨i, hi, rfl⟩⟩
  | array a =>
    obtain ⟨i, hi⟩ := Option.isSome_iff_exists.mp hplace
    refine ⟨_, Heap.store?_array_eq_some.mpr ⟨?_, i, hi, rfl⟩⟩
    unfold Heap.Takes at hx
    split at hx
    · next hnone => simp [hnone]
    · next hsome =>
      rw [hsome, Option.all_some]
      exact hx
  | _ => cases hb

/-- An item of a collection takes null, but where the type is primitive, and what can be converted to the
type. -/
theorem write_collection {t : TypeRef} (hw : w.Plain ro) (hb : isCollection base = true)
    (h : type host handle base k w = .value (some t) u) :
    (∃ u', write host handle base k x w = .value () u') ↔
      (x.isNull = true ∧ t.isPrimitive = false) ∨ ∃ y, Coercion.toType u.heap t x = .ok y := by
  obtain ⟨hpermits, hplace, ht, rfl⟩ := (type_collection hw.layout hb).mp h
  cases ht
  rw [World.claimed_heap, ← itemFor_isOk_iff]
  constructor
  · rintro ⟨u', hwrite⟩
    obtain ⟨y, v, hconvert, -⟩ := Action.bind_eq_value.mp hwrite
    obtain ⟨-, -, hy, -⟩ := (convertForWrite_collection hw.layout hb).mp hconvert
    exact ⟨y, hy⟩
  · rintro ⟨y, hy⟩
    obtain ⟨g, hg⟩ := store?_isSome hb hplace (itemFor_takes hy)
    have hconvert : Evaluation.convertForWrite host handle base k x w =
        .value y (w.claimed base k) :=
      (convertForWrite_collection hw.layout hb).mpr ⟨hpermits, hplace, hy, rfl⟩
    have hset : set host handle base k y (w.claimed base k) =
        .value () { (w.claimed base k).claimed base k with heap := g } :=
      (set_collection (w := w.claimed base k) hw.layout hb).mpr ⟨hpermits, g, hg, rfl⟩
    exact ⟨_, Action.bind_eq_value.mpr ⟨y, _, hconvert, hset⟩⟩

end Resolution

end ExprLang
