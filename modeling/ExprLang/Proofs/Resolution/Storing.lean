import ExprLang.Proofs.Resolution.Writing

/-! What a write to a property changes in the standard chain: nothing where it fails, one place of one
collection, or what the code of a writer changes. -/

namespace ExprLang

open Action (Looks)

/-- What assignments change: the cells of all values, and the values of names, store by store. -/
structure Storage where
  heap : Heap
  stores : Array (Bindings Value)

def World.storage (w : World) : Storage := ⟨w.heap, w.context.stores⟩

/-- The storage that an outcome leaves behind. -/
def Outcome.storage? {α : Type} (o : Outcome α) : Option Storage := o.final?.map World.storage

/-- All cells and all values of names are as they were. There may be more cells. -/
structure Storage.Within (s t : Storage) : Prop where
  lineage : t.heap.lineage = s.heap.lineage
  cells : s.heap.cells.toList <+: t.heap.cells.toList
  stores : t.stores = s.stores

theorem Storage.Within.refl (s : Storage) : s.Within s := ⟨rfl, List.prefix_rfl, rfl⟩

theorem World.Unmoved.storage {w u : World} (h : w.Unmoved u) : u.storage = w.storage := by
  rw [World.storage, World.storage, h.heap, h.stores]

/-! ## Places of collections -/

namespace Heap

variable {h g : Heap} {base k y : Value}

/-- The cell of a collection. -/
def cellOf? (h : Heap) : Value → Option (Address × Cell)
  | .list a => some (a, .items (h.items a))
  | .map a => some (a, .entries (h.entries a))
  | .array a => some (a, .array (h.array a).1 (h.array a).2)
  | _ => none

/-- A cell after a value has been stored under a property: in a slot, in the first entry of that key, or
in a new entry behind all others. -/
inductive Stored (h : Heap) (k y : Value) : Cell → Cell → Prop where
  | item {vs : List Value} {i : Nat} : h.slot? vs.length k = some i →
    Stored h k y (.items vs) (.items (vs.set i y))
  | element {c : TypeRef} {vs : List Value} {i : Nat} : h.slot? vs.length k = some i →
    Stored h k y (.array c vs) (.array c (vs.set i y))
  | entry {before after : List (Value × Value)} {key v : Value} :
    (∀ e ∈ before, h.equal e.1 k = false) → h.equal key k = true →
    Stored h k y (.entries (before ++ (key, v) :: after)) (.entries (before ++ (key, y) :: after))
  | added {es : List (Value × Value)} : (∀ e ∈ es, h.equal e.1 k = false) →
    Stored h k y (.entries es) (.entries (es ++ [(k, y)]))

theorem stored_putEntry (es : List (Value × Value)) :
    h.Stored k y (.entries es) (.entries (h.putEntry es k y)) := by
  induction es with
  | nil => exact .added nofun
  | cons e es ih =>
    cases he : h.equal e.1 k with
    | true =>
      rw [putEntry, if_pos he]
      exact @Stored.entry h k y [] es e.1 e.2 nofun he
    | false =>
      have hhead {es : List (Value × Value)} (h' : ∀ f ∈ es, h.equal f.1 k = false) :
          ∀ f ∈ e :: es, h.equal f.1 k = false := List.forall_mem_cons.mpr ⟨he, h'⟩
      rw [putEntry, he, if_neg Bool.false_ne_true]
      generalize hrest : h.putEntry es k y = rest at ih
      cases ih with
      | @entry before after key v hbefore hkey =>
        exact @Stored.entry h k y (e :: before) after key v (hhead hbefore) hkey
      | added hall => exact @Stored.added h k y (e :: es) (hhead hall)

theorem stored_of_store? (hg : h.store? base k y = some g) :
    ∃ a c c', h.cellOf? base = some (a, c) ∧ h.Stored k y c c' ∧ g = h.put a c' := by
  cases base with
  | map a =>
    cases hg
    exact ⟨a, _, _, rfl, stored_putEntry _, rfl⟩
  | list a =>
    obtain ⟨i, hi, rfl⟩ := store?_list_eq_some.mp hg
    exact ⟨a, _, _, rfl, .item hi, rfl⟩
  | array a =>
    obtain ⟨-, i, hi, rfl⟩ := store?_array_eq_some.mp hg
    exact ⟨a, _, _, rfl, .element hi, rfl⟩
  | _ => cases hg

end Heap

namespace Resolution

variable {host : Host} {handle : Handler} {ro : Bool} {α : Type} {w u : World} {base k x : Value}

/-! ## Calls of writers -/

/-- Before the code of a method starts, nothing changes but that an array of arguments may be made. -/
theorem prepare_cases (m : Method) (args : List Value) (hw : w.Plain ro) :
    Refused (m.prepare host args) w ∨
      ∃ vs u, m.prepare host args w = .value vs u ∧ w.storage.Within u.storage := by
  have hconvert (types : List TypeRef) (vs : List Value) : Looks ro (Method.convertAll host types vs) :=
    Method.convertAll_looks types vs
  let P : Outcome (List Value) → Prop := fun o => ∃ vs u, o = .value vs u ∧ w.storage.Within u.storage
  have hreturn {y : Action (List Value)} (h : Refused y w ∨ P (y w)) (hy : m.prepare host args w = y w) :
      Refused (m.prepare host args) w ∨ P (m.prepare host args w) := by
    rw [hy]
    exact h.imp_left fun ⟨e, u, he, hu⟩ => ⟨e, u, hy.trans he, hu⟩
  cases hg : m.gathering? w.heap args with
  | some component =>
    refine hreturn ?_ (Method.prepare_gathering hg)
    refine refused_or_bind (hconvert _ _) hw fun fixed v _ hv hplain => ?_
    refine refused_or_bind (hconvert _ _) hplain fun rest u _ hu _ => .inr ⟨_, _, rfl, ?_⟩
    rw [← (hv.trans hu).storage]
    refine ⟨rfl, ?_, rfl⟩
    exact u.heap.cells.toList_push ▸ List.prefix_append _ _
  | none =>
    refine hreturn ?_ (Method.prepare_counted hg)
    split
    · obtain ⟨u, hu, ⟨vs, hvs⟩ | ⟨e, he, -⟩⟩ := hconvert m.params args w hw
      · exact .inr ⟨vs, u, hvs, hu.storage ▸ .refl _⟩
      · exact .inl ⟨e, u, he, hu⟩
    · exact .inl (.fail _ w)

/-- The storage is what the code of the writer of a property leaves. The writer was called once, with this
value, and before its code started, nothing was changed. -/
def LeftByWriter (host : Host) (handle : Handler) (w : World) (base k x : Value)
    (left : Option Storage) : Prop :=
  ∃ p m args v u, HasProperty host w.heap base k p ∧ p.writer = some m ∧ w.Unmoved v ∧
    m.prepare host [x] v = .value args u ∧ w.storage.Within u.storage ∧
    left = (m.run host handle base args u).storage?

/-- A writer without code fails as it is called, and changes nothing. -/
theorem LeftByWriter.within_or_code {s : Storage} (h : LeftByWriter host handle w base k x (some s)) :
    w.storage.Within s ∨ ∃ p m code, HasProperty host w.heap base k p ∧ p.writer = some m ∧
      m.body = some code := by
  obtain ⟨p, m, args, v, u, hp, hm, -, -, hwithin, hleft⟩ := h
  cases hbody : m.body with
  | some code => exact .inr ⟨p, m, code, hp, hm, hbody⟩
  | none =>
    unfold Method.run at hleft
    rw [hbody] at hleft
    cases hleft
    exact .inl hwithin

theorem beans_set_cases {r : Bool} (hbase : base ≠ .null) (hw : w.Plain ro) :
    Refused (beans host handle r (.set base k x)) w ∨
      LeftByWriter host handle w base k x (beans host handle r (.set base k x) w).storage? := by
  let P : Outcome Unit → Prop := fun o => LeftByWriter host handle w base k x o.storage?
  show _ ∨ P _
  refine refused_or_bind (target?_looks base k) hw fun _ _ htarget _ _ => ?_
  obtain ⟨c, name, rfl, hclass, hname, rfl⟩ := target?_value hbase htarget
  refine refused_or_bind (.claim base k) hw fun _ v hclaim hv hplain => ?_
  obtain ⟨-, rfl⟩ := Action.claim_eq_value.mp hclaim
  cases r with
  | true => exact .inl (.fail _ _)
  | false =>
    refine refused_or_bind .heap hplain fun g _ hheap _ _ => ?_
    cases hheap
    refine refused_or_bind (property_looks _ _ _) hplain fun p _ hp _ _ => ?_
    obtain ⟨hproperty, rfl⟩ := ofExcept_eq_value.mp hp
    cases hwriter : p.writer with
    | none => exact .inl (.fail _ _)
    | some m =>
      dsimp only
      rw [m.invoke_eq, bind_assoc]
      obtain ⟨e, u, he, hu⟩ | ⟨args, u, hargs, hu⟩ := prepare_cases m [x] hplain
      · exact .inl ⟨e, u, Action.bind_fault he, hu⟩
      · refine .inr ⟨p, m, args, _, u, ⟨c, name, hclass, hname, property_eq_ok.mp hproperty⟩, hwriter,
          hv, hargs, hu, ?_⟩
        rw [Action.bind_value hargs]
        cases hrun : m.run host handle base args u with
        | value a z => rw [Action.bind_value hrun]; rfl
        | fault e z => rw [Action.bind_fault hrun]; rfl
        | exhausted => rw [Action.bind_exhausted hrun]; rfl

/-! ## Writes to the chain -/

/-- The resolver for a value refuses a write, or carries it out, or leaves it to the code of a writer. -/
theorem Serves.set_cases {r : Resolver} (hr : Serves host ro w.heap k base r) (hbase : base ≠ .null)
    (hw : w.Plain ro) (handle : Handler) (x : Value) :
    Refused (r.ask (answer host handle) (.set base k x)) w ∨
      (isCollection base = true ∧ ∃ u, r.ask (answer host handle) (.set base k x) w = .value () u) ∨
      LeftByWriter host handle w base k x (r.ask (answer host handle) (.set base k x) w).storage? := by
  let P : Outcome Unit → Prop := fun o => ∃ u, o = .value () u
  have hcollection {y : Action Unit} (hb : isCollection base = true) (h : Refused y w ∨ P (y w)) :
      Refused y w ∨ (isCollection base = true ∧ ∃ u, y w = .value () u) ∨
        LeftByWriter host handle w base k x (y w).storage? :=
    h.imp_right fun h => .inl ⟨hb, h⟩
  cases hr with
  | map a =>
    show Refused (maps false (.set (.map a) k x)) w ∨ _
    refine hcollection rfl (refused_or_bind (.claim _ _) hw fun _ v _ _ hv => ?_)
    exact refused_or_bind .heap hv fun _ _ _ _ _ => .inr ⟨_, rfl⟩
  | list a =>
    show Refused (lists false (.set (.list a) k x)) w ∨ _
    refine hcollection rfl (refused_or_bind (.claim _ _) hw fun _ v _ _ hv => ?_)
    refine refused_or_bind (indexOf_looks k) hv fun _ v _ _ hv => ?_
    refine refused_or_bind .heap hv fun _ _ _ _ hv => ?_
    exact refused_or_bind (place_looks _ _) hv fun _ _ _ _ _ => .inr ⟨_, rfl⟩
  | array a =>
    show Refused (arrays false (.set (.array a) k x)) w ∨ _
    refine hcollection rfl (refused_or_bind (.claim _ _) hw fun _ v _ _ hv => ?_)
    refine refused_or_bind (indexOf_looks k) hv fun _ v _ _ hv => ?_
    refine refused_or_bind .heap hv fun _ _ _ _ hv => ?_
    refine refused_or_bind (place_looks _ _) hv fun _ _ _ _ _ => ?_
    exact refused_or_ite (.inr ⟨_, rfl⟩) (.inl (.fail _ _))
  | field c hf =>
    show Refused (statics host handle (.set (.cls c) k x)) w ∨ _
    exact .inl (statics_set_refused hw hf)
  | component base hc =>
    show Refused (records host handle (.set base k x)) w ∨ _
    exact .inl (records_set_refused hw hc)
  | bean base =>
    show Refused (beans host handle ro (.set base k x)) w ∨ _
    exact (beans_set_cases hbase hw).imp_right .inr

/-- A request that has to be answered fails where nothing claims it, and changes nothing by that. -/
theorem final?_require {q : Request α} :
    (require host handle base k q w).final? = (resolve host handle q w).final? := by
  cases h : resolve host handle q w with
  | fault e u => rw [require, Action.bind_fault h]
  | exhausted => rw [require, Action.bind_exhausted h]
  | value a u =>
    rw [require, Action.bind_value h, Action.bind_value (Action.isResolved_apply u)]
    split <;> rfl

section Chain
variable (hbase : base ≠ .null) (hw : w.Plain ro)
include hbase hw

theorem set_cases (host : Host) (handle : Handler) (k x : Value) :
    Refused (set host handle base k x) w ∨
      (∃ g u, w.heap.store? base k x = some g ∧ set host handle base k x w = .value () u ∧
        u.storage = ⟨g, w.context.stores⟩) ∨
      LeftByWriter host handle w base k x (set host handle base k x w).storage? := by
  have hflagged := w.unmoved_flagged false
  have hresolve : resolve host handle (.set base k x) w = _ := resolve_set hbase hw
  obtain ⟨e, u, he, hu⟩ | ⟨hb, u, hu⟩ | hleft :=
    (serves_server host ro (w.flagged false).heap base k).set_cases hbase (hflagged.plain hw) handle x
  · exact .inl ⟨e, u, Action.bind_fault (hresolve.trans he), hflagged.trans hu⟩
  · have hset : set host handle base k x w = .value () u :=
      (require_collection hw.layout hb host handle (q := .set base k x) trivial rfl).trans hu
    obtain ⟨-, g, hg, rfl⟩ := (set_collection hw.layout hb).mp hset
    exact .inr (.inl ⟨g, _, hg, hset, rfl⟩)
  · obtain ⟨p, m, args, v, v', hp, hwriter, hv, hargs, hv', hfinal⟩ := hleft
    have hset : (set host handle base k x w).storage? = _ :=
      (congrArg (Option.map World.storage) final?_require).trans
        ((congrArg Outcome.storage? hresolve).trans hfinal)
    exact .inr (.inr ⟨p, m, args, v, v', hp, hwriter, hflagged.trans hv, hargs, hv', hset⟩)

/-- A write to a property fails and changes nothing, or stores the converted value in its place of a
collection, or leaves it to the code of a writer as the last that happens. -/
theorem write_cases (host : Host) (handle : Handler) (k x : Value) :
    Refused (write host handle base k x) w ∨
      (∃ y g u, w.heap.itemFor base x = .ok y ∧ w.heap.store? base k y = some g ∧
        write host handle base k x w = .value () u ∧ u.storage = ⟨g, w.context.stores⟩) ∨
      ∃ y v, Evaluation.convertForWrite host handle base k x w = .value y v ∧ w.Unmoved v ∧
        LeftByWriter host handle v base k y (write host handle base k x w).storage? := by
  obtain ⟨v, hv, ⟨y, hy⟩ | ⟨e, he, -⟩⟩ := convertForWrite_looks hbase k x w hw
  · have hwrite : write host handle base k x w = set host handle base k y v := Action.bind_value hy
    obtain ⟨e, u, he, hu⟩ | ⟨g, u, hg, hset, hu⟩ | hleft :=
      set_cases hbase (hv.plain hw) host handle k y
    · exact .inl ⟨e, u, hwrite.trans he, hv.trans hu⟩
    · have hb : isCollection base = true := by
        cases base <;> first | rfl | cases hg
      obtain ⟨-, -, hitem, rfl⟩ := (convertForWrite_collection hw.layout hb).mp hy
      exact .inr (.inl ⟨y, g, u, hitem, hg, hwrite.trans hset, hu⟩)
    · exact .inr (.inr ⟨y, v, hy, hv, hwrite ▸ hleft⟩)
  · exact .inl ⟨e, v, Action.bind_fault he, hv⟩

end Chain

end Resolution

end ExprLang
