import ExprLang.Proofs.Resolution.Standard

/-! What the standard chain does with the items of lists, maps and arrays: loads and stores in the heap,
where the listeners let the claim pass. -/

namespace ExprLang

/-- The place of an item among so many that a property means. -/
def Heap.slot? (h : Heap) (length : Nat) (property : Value) : Option Nat :=
  match Coercion.toTarget h Coercion.long property with
  | .ok n => Resolution.place? n.toInt length
  | .error _ => none

namespace Heap

/-- The type of the items of a collection. -/
def component (h : Heap) : Value → TypeRef
  | .array a => (h.array a).1
  | _ => .object

/-- The collection has a place for an item under this property. -/
def HasPlace (h : Heap) (base property : Value) : Prop :=
  match base with
  | .map _ => True
  | .list a => (h.slot? (h.items a).length property).isSome
  | .array a => (h.slot? (h.array a).2.length property).isSome
  | _ => False

/-- The item that a property means, if it is an index; there is null at other places. -/
def item? (h : Heap) (items : List Value) (property : Value) : Option Value :=
  match Coercion.toTarget h Coercion.long property with
  | .ok n => some (((Resolution.place? n.toInt items.length).bind (items[·]?)).getD .null)
  | .error _ => none

theorem item?_of_slot? {h : Heap} {items : List Value} {property item : Value} {i : Nat}
    (hi : h.slot? items.length property = some i) (hitem : items[i]? = some item) :
    h.item? items property = some item := by
  unfold slot? at hi
  unfold item?
  split at hi
  · simp only [hi, Option.bind_some, hitem, Option.getD_some]
  · cases hi

/-- What is found in a collection under a property; a map without the key has null there. -/
def load? (h : Heap) (base property : Value) : Option Value :=
  match base with
  | .map a => some ((h.lookup? (h.entries a) property).getD .null)
  | .list a => h.item? (h.items a) property
  | .array a => h.item? (h.array a).2 property
  | _ => none

/-- The item that an assignment of a value stores: the value as one of the type of the items. Null stays,
but where the type is primitive. -/
def itemFor (h : Heap) (base value : Value) : Except Fault Value :=
  if !value.isNull || (h.component base).isPrimitive then
    Coercion.toType h (h.component base) value
  else .ok value

/-- The heap with an item stored in a collection, where it has a place and the type for it. -/
def store? (h : Heap) (base property item : Value) : Option Heap :=
  match base with
  | .map a => some (h.put a (.entries (h.putEntry (h.entries a) property item)))
  | .list a =>
    (h.slot? (h.items a).length property).map fun i => h.put a (.items ((h.items a).set i item))
  | .array a =>
    if (h.typeOf? item).all (h.lineage.assignable (h.array a).1) then
      (h.slot? (h.array a).2.length property).map fun i =>
        h.put a (.array (h.array a).1 ((h.array a).2.set i item))
    else none
  | _ => none

variable {h g : Heap} {a : Address} {k x : Value}

theorem store?_list_eq_some :
    h.store? (.list a) k x = some g ↔
      ∃ i, h.slot? (h.items a).length k = some i ∧ g = h.put a (.items ((h.items a).set i x)) := by
  rw [store?, Option.map_eq_some_iff]
  exact exists_congr fun i => and_congr_right fun _ => eq_comm

theorem store?_array_eq_some :
    h.store? (.array a) k x = some g ↔
      (h.typeOf? x).all (h.lineage.assignable (h.array a).1) = true ∧
        ∃ i, h.slot? (h.array a).2.length k = some i ∧
          g = h.put a (.array (h.array a).1 ((h.array a).2.set i x)) := by
  simp only [store?]
  split
  · next hfits =>
    rw [Option.map_eq_some_iff]
    exact ⟨fun ⟨i, hi, hg⟩ => ⟨hfits, i, hi, hg.symm⟩, fun ⟨_, i, hi, hg⟩ => ⟨i, hi, hg.symm⟩⟩
  · next hfits => simp [hfits]

end Heap

namespace Resolution

variable {host : Host} {handle : Handler} {ro : Bool} {α : Type} {w u : World} {a : Address}
  {base k x : Value} {t : Option TypeRef}

/-! ## Places -/

/-- Does something at the place that a property means. -/
def atSlot (k : Value) (length : Heap → Nat) (f : Heap → Nat → Action α) : Action α := do
  let index ← indexOf k
  let h ← Action.heap
  let i ← place index (length h)
  f h i

theorem place_eq_value {index : Int} {length i : Nat} :
    place index length w = .value i u ↔ place? index length = some i ∧ u = w := by
  unfold place
  cases place? index length with
  | none => exact ⟨nofun, fun h => nomatch h.1⟩
  | some j =>
    constructor
    · intro h
      cases h
      exact ⟨rfl, rfl⟩
    · rintro ⟨h, rfl⟩
      cases h
      rfl

theorem indexOf_eq_value {index : Int} :
    indexOf k w = .value index u ↔
      ∃ n, Coercion.toTarget w.heap Coercion.long k = .ok n ∧ index = n.toInt ∧ u = w := by
  constructor
  · intro h
    obtain ⟨_, _, hheap, hnumber⟩ := Action.bind_eq_value.mp h
    cases hheap
    obtain ⟨n, _, hn, hindex⟩ := Action.bind_eq_value.mp hnumber
    obtain ⟨hread, rfl⟩ := ofExcept_eq_value.mp hn
    cases hindex
    exact ⟨n, hread, rfl, rfl⟩
  · rintro ⟨n, hn, rfl, rfl⟩
    rw [indexOf, Action.bind_value (Action.heap_apply u), ofExcept_ok hn]
    rfl

theorem atSlot_eq_value {length : Heap → Nat} {f : Heap → Nat → Action α} {b : α} :
    atSlot k length f w = .value b u ↔
      ∃ i, w.heap.slot? (length w.heap) k = some i ∧ f w.heap i w = .value b u := by
  constructor
  · intro h
    obtain ⟨_, _, hindex, hrest⟩ := Action.bind_eq_value.mp h
    obtain ⟨n, hn, rfl, rfl⟩ := indexOf_eq_value.mp hindex
    obtain ⟨_, _, hheap, hplace⟩ := Action.bind_eq_value.mp hrest
    cases hheap
    obtain ⟨i, _, hi, hf⟩ := Action.bind_eq_value.mp hplace
    obtain ⟨hslot, rfl⟩ := place_eq_value.mp hi
    exact ⟨i, by simp only [Heap.slot?, hn, hslot], hf⟩
  · rintro ⟨i, hslot, hf⟩
    unfold Heap.slot? at hslot
    split at hslot
    · next n hn =>
      rw [atSlot, Action.bind_value (indexOf_eq_value.mpr ⟨n, hn, rfl, rfl⟩),
        Action.bind_value (Action.heap_apply w), Action.bind_value (place_eq_value.mpr ⟨hslot, rfl⟩)]
      exact hf
    · cases hslot

/-- An answer that needs a place to be there. -/
theorem atSlot_pure {length : Heap → Nat} {f : Heap → α} {b : α} :
    atSlot k length (fun h _ => pure (f h)) w = .value b u ↔
      (w.heap.slot? (length w.heap) k).isSome = true ∧ b = f w.heap ∧ u = w := by
  rw [atSlot_eq_value]
  constructor
  · rintro ⟨i, hi, h⟩
    cases h
    exact ⟨Option.isSome_of_eq_some hi, rfl, rfl⟩
  · rintro ⟨hplace, rfl, rfl⟩
    obtain ⟨i, hi⟩ := Option.isSome_iff_exists.mp hplace
    exact ⟨i, hi, rfl⟩

/-- The item that a property means. -/
def itemAt (k : Value) (items : Heap → List Value) : Action Value := do
  let index ← indexOf k
  let h ← Action.heap
  pure (((place? index (items h).length).bind ((items h)[·]?)).getD .null)

theorem itemAt_eq_value {items : Heap → List Value} :
    itemAt k items w = .value x u ↔ w.heap.item? (items w.heap) k = some x ∧ u = w := by
  unfold Heap.item?
  constructor
  · intro h
    obtain ⟨_, _, hindex, hrest⟩ := Action.bind_eq_value.mp h
    obtain ⟨n, hn, rfl, rfl⟩ := indexOf_eq_value.mp hindex
    cases hrest
    rw [hn]
    exact ⟨rfl, rfl⟩
  · rintro ⟨hitem, rfl⟩
    split at hitem
    · next n hn =>
      cases hitem
      rw [itemAt, Action.bind_value (indexOf_eq_value.mpr ⟨n, hn, rfl, rfl⟩)]
      rfl
    · cases hitem

theorem claim_bind_eq_value {f : Action α} {b : α} :
    (do Action.claim base k; f) w = .value b u ↔
      w.Permits base k ∧ f (w.claimed base k) = .value b u := by
  constructor
  · intro h
    obtain ⟨_, v, hclaim, hf⟩ := Action.bind_eq_value.mp h
    obtain ⟨hpermits, rfl⟩ := Action.claim_eq_value.mp hclaim
    exact ⟨hpermits, hf⟩
  · rintro ⟨hpermits, hf⟩
    rw [Action.bind_value (Action.claim_permitted hpermits)]
    exact hf

/-! ## Collections in the standard chain -/

theorem ne_null_of_isCollection (hb : isCollection base = true) : base ≠ .null := by
  rintro rfl
  cases hb

section Collection
variable (hw : w.context.layout = .standard [] ro) (hb : isCollection base = true)
include hw hb

/-- Requests for items are answered by the resolver for the collection. -/
theorem require_collection (host : Host) (handle : Handler) {q : Request α} (hq : OfProperty q) (hbase : q.subject.1 = base) :
    require host handle q.subject.1 q.subject.2 q w =
      (server host ro w.heap q.subject.1 q.subject.2).ask (answer host handle) q
        (w.flagged false) := by
  have hs : Served q := ⟨hbase ▸ ne_null_of_isCollection hb, hq, .inl (hbase ▸ hb)⟩
  refine require_server hw hs fun b u h => ?_
  obtain hflag | ⟨hbeans, -⟩ := server_claims (w := w.flagged false) hs h
  · exact hflag
  · rw [hbase] at hbeans
    cases base <;> first | cases hb; done | cases hbeans

/-- What is asked of the chain is claimed, so that it need not be demanded. -/
theorem resolve_collection (host : Host) (handle : Handler) {q : Request α} (hq : OfProperty q) (hbase : q.subject.1 = base) :
    resolve host handle q w = require host handle q.subject.1 q.subject.2 q w :=
  (resolve_server hw ⟨hbase ▸ ne_null_of_isCollection hb, hq, .inl (hbase ▸ hb)⟩).trans
    (require_collection hw hb host handle hq hbase).symm

theorem get_collection :
    get host handle base k w = .value x u ↔
      w.Permits base k ∧ w.heap.load? base k = some x ∧ u = w.claimed base k := by
  have hrequire : get host handle base k w = _ :=
    require_collection hw hb host handle (q := .get base k) trivial rfl
  rw [hrequire]
  cases base with
  | map a =>
    refine claim_bind_eq_value.trans (and_congr_right fun _ => ?_)
    constructor
    · intro h
      cases h
      exact ⟨rfl, rfl⟩
    · rintro ⟨hload, rfl⟩
      cases hload
      rfl
  | list a =>
    exact (claim_bind_eq_value (f := itemAt k (·.items a))).trans
      (and_congr_right fun _ => itemAt_eq_value)
  | array a =>
    exact (claim_bind_eq_value (f := itemAt k (fun h => (h.array a).2))).trans
      (and_congr_right fun _ => itemAt_eq_value)
  | _ => cases hb

theorem type_collection :
    type host handle base k w = .value t u ↔
      w.Permits base k ∧ w.heap.HasPlace base k ∧ t = some (w.heap.component base) ∧
        u = w.claimed base k := by
  have hrequire : type host handle base k w = _ :=
    require_collection hw hb host handle (q := .type base k) trivial rfl
  rw [hrequire]
  cases base with
  | map a =>
    refine claim_bind_eq_value.trans (and_congr_right fun _ => ?_)
    constructor
    · intro h
      cases h
      exact ⟨trivial, rfl, rfl⟩
    · rintro ⟨-, rfl, rfl⟩
      rfl
  | list a =>
    exact (claim_bind_eq_value (f := atSlot k (fun h => (h.items a).length) fun _ _ =>
      pure (some TypeRef.object))).trans (and_congr_right fun _ => atSlot_pure)
  | array a =>
    exact (claim_bind_eq_value (f := atSlot k (fun h => (h.array a).2.length) fun h _ =>
      pure (some (h.array a).1))).trans (and_congr_right fun _ => atSlot_pure)
  | _ => cases hb

/-- A value is converted to the type of the items by the rules of coercion alone. -/
theorem convertForWrite_collection {v : Value} :
    Evaluation.convertForWrite host handle base k v w = .value x u ↔
      w.Permits base k ∧ w.heap.HasPlace base k ∧ w.heap.itemFor base v = .ok x ∧
        u = w.claimed base k := by
  have hresolve : resolve host handle (.type base k) w = type host handle base k w :=
    resolve_collection hw hb host handle (q := .type base k) trivial rfl
  have hconvert (t : TypeRef) : Conversion.convert host v t (w.claimed base k) =
      Action.ofExcept (Coercion.toType w.heap t v) (w.claimed base k) :=
    Conversion.convert_standard (w := w.claimed base k) hw v t
  have hitem : (do
      let claimed ← Action.isResolved
      if claimed && (!v.isNull || (w.heap.component base).isPrimitive) then
        Conversion.convert host v (w.heap.component base)
      else pure v) (w.claimed base k) =
        Action.ofExcept (w.heap.itemFor base v) (w.claimed base k) := by
    rw [Action.bind_value (Action.isResolved_apply _), Heap.itemFor]
    simp only [World.claimed_context, Bool.true_and]
    split
    · exact hconvert _
    · rfl
  unfold Evaluation.convertForWrite
  rw [Action.bind_eq_value, hresolve]
  constructor
  · rintro ⟨t, v, htype, hrest⟩
    obtain ⟨hpermits, hplace, rfl, rfl⟩ := (type_collection hw hb).mp htype
    exact ⟨hpermits, hplace, ofExcept_eq_value.mp (hitem.symm.trans hrest)⟩
  · rintro ⟨hpermits, hplace, hx⟩
    exact ⟨_, _, (type_collection hw hb).mpr ⟨hpermits, hplace, rfl, rfl⟩,
      hitem.trans (ofExcept_eq_value.mpr hx)⟩

theorem set_collection :
    set host handle base k x w = .value () u ↔
      w.Permits base k ∧ ∃ h, w.heap.store? base k x = some h ∧
        u = { w.claimed base k with heap := h } := by
  have hrequire : set host handle base k x w = _ :=
    require_collection hw hb host handle (q := .set base k x) trivial rfl
  rw [hrequire]
  cases base with
  | map a =>
    refine claim_bind_eq_value.trans (and_congr_right fun _ => ?_)
    constructor
    · intro h
      cases h
      exact ⟨_, rfl, rfl⟩
    · rintro ⟨h, hstore, rfl⟩
      cases hstore
      rfl
  | list a =>
    refine (claim_bind_eq_value (f := atSlot k (fun h => (h.items a).length) fun h i =>
      Action.setCells (h.put a (.items ((h.items a).set i x))))).trans (and_congr_right fun _ => ?_)
    rw [atSlot_eq_value]
    constructor
    · rintro ⟨i, hi, h⟩
      cases h
      exact ⟨_, Heap.store?_list_eq_some.mpr ⟨i, hi, rfl⟩, rfl⟩
    · rintro ⟨h, hstore, rfl⟩
      obtain ⟨i, hi, rfl⟩ := Heap.store?_list_eq_some.mp hstore
      exact ⟨i, hi, rfl⟩
  | array a =>
    refine (claim_bind_eq_value (f := atSlot k (fun h => (h.array a).2.length) fun h i =>
      if (h.typeOf? x).all (h.lineage.assignable (h.array a).1) then
        Action.setCells (h.put a (.array (h.array a).1 ((h.array a).2.set i x)))
      else Action.fail (Coercion.refusal h x (h.lineage.typeName (h.array a).1)))).trans
        (and_congr_right fun _ => ?_)
    rw [atSlot_eq_value]
    constructor
    · rintro ⟨i, hi, h⟩
      split at h
      · next hfits =>
        cases h
        exact ⟨_, Heap.store?_array_eq_some.mpr ⟨hfits, i, hi, rfl⟩, rfl⟩
      · cases h
    · rintro ⟨h, hstore, rfl⟩
      obtain ⟨hfits, i, hi, rfl⟩ := Heap.store?_array_eq_some.mp hstore
      refine ⟨i, hi, ?_⟩
      split
      · rfl
      · next hno => exact absurd hfits hno
  | _ => cases hb

end Collection

end Resolution

end ExprLang
