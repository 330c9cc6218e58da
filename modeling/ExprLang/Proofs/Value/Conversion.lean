import ExprLang.Overload

/-! Which values convert to a declared type, and what they become. Neither depends on what cells
hold besides the types of arrays and objects. Others fail because they have no counterpart. -/

namespace ExprLang

/-! ## Heaps that keep the types of cells -/

/-- The type that a value has by what its cell holds. -/
def Cell.type? : Cell → Option TypeRef
  | .array component _ => some (.array component)
  | .object o => some (.named o.owner)
  | _ => none

/-- The address of a value whose type depends on its cell. -/
def Value.typeCell? : Value → Option Address
  | .array a => some a
  | .object a => some a
  | _ => none

/-- Arrays and objects refer to cells that there are. -/
def Value.LivesIn (h : Heap) (v : Value) : Prop := ∀ a, v.typeCell? = some a → a < h.cells.size

/-- The type that a value has by what this cell holds. -/
def Heap.cellType? (h : Heap) (a : Address) : Option TypeRef := (h.cells[a]?).bind Cell.type?

/-- All cells are still there, and the classes; arrays and objects have the types that they had. -/
structure Heap.Retains (h k : Heap) : Prop where
  lineage : k.lineage = h.lineage
  size : h.cells.size ≤ k.cells.size
  types : ∀ a, a < h.cells.size → k.cellType? a = h.cellType? a

namespace Heap
variable {h k l : Heap} {t : TypeRef} {v : Value}

theorem Retains.refl (h : Heap) : h.Retains h := ⟨rfl, Nat.le_refl _, fun _ _ => rfl⟩

theorem Retains.trans (hk : h.Retains k) (kl : k.Retains l) : h.Retains l :=
  ⟨kl.lineage.trans hk.lineage, Nat.le_trans hk.size kl.size, fun a ha =>
    (kl.types a (Nat.lt_of_lt_of_le ha hk.size)).trans (hk.types a ha)⟩

theorem retains_newArray (h : Heap) (component : TypeRef) (vs : List Value) :
    h.Retains (h.newArray component vs).2 := by
  refine ⟨rfl, ?_, fun a ha => ?_⟩
  · simp [newArray, alloc]
  · simp [cellType?, newArray, alloc, Array.getElem?_push, Nat.ne_of_lt ha]

theorem livesIn_retained (hk : h.Retains k) (hv : v.LivesIn h) : v.LivesIn k := fun a ha =>
  Nat.lt_of_lt_of_le (hv a ha) hk.size

theorem typeOf?_array (h : Heap) (a : Address) :
    h.typeOf? (.array a) =
      match h.cellType? a with
      | some (.array component) => some (.array component)
      | _ => some (.array .object) := by
  simp only [typeOf?, array, cellType?]
  rcases h.cells[a]? with _ | (_ | _ | _ | _) <;> rfl

theorem typeOf?_object (h : Heap) (a : Address) :
    h.typeOf? (.object a) =
      match h.cellType? a with
      | some (.named c) => some (.named c)
      | _ => some (.named (.builtin .object)) := by
  simp only [typeOf?, owner, object?, cellType?]
  rcases h.cells[a]? with _ | (_ | _ | _ | _) <;> rfl

/-- Values keep their types. -/
theorem typeOf?_retained (hk : h.Retains k) (hv : v.LivesIn h) : k.typeOf? v = h.typeOf? v := by
  cases v with
  | array a => rw [typeOf?_array, typeOf?_array, hk.types a (hv a rfl)]
  | object a => rw [typeOf?_object, typeOf?_object, hk.types a (hv a rfl)]
  | _ => rfl

/-- The type takes the value: it is null, where the type is not primitive, or it has a type that can
be stored there. -/
def Takes (h : Heap) (t : TypeRef) (v : Value) : Prop :=
  match h.typeOf? v with
  | none => t.isPrimitive = false
  | some s => h.lineage.assignable t s = true

theorem takes_retained (hk : h.Retains k) (hv : v.LivesIn h) : k.Takes t v ↔ h.Takes t v := by
  rw [Takes, Takes, typeOf?_retained hk hv, hk.lineage]

theorem takes_object (h : Heap) (v : Value) : h.Takes .object v := by
  cases v <;> simp [Takes, typeOf?, Lineage.assignable, Lineage.accepts, TypeRef.isPrimitive]

theorem takes_primitive {p : Primitive} (hv : h.typeOf? v = some (.boxed p)) :
    h.Takes (.primitive p) v := by
  simp [Takes, hv, Lineage.assignable, Lineage.accepts]

theorem assignable_refl (l : Lineage) (t : TypeRef) : l.assignable t t = true := by
  cases t <;> simp [Lineage.assignable, Lineage.accepts]

theorem takes_of_typeOf? (hv : h.typeOf? v = some t) : h.Takes t v := by
  simp [Takes, hv, assignable_refl]

end Heap

/-! ## What conversions give -/

namespace Coercion
variable {h k : Heap} {t : TypeRef} {v r : Value} {α : Type}

theorem toTarget_map_eq_ok {target : Target α} {f : α → Value}
    (hr : f <$> toTarget h target v = .ok r) : ∃ a, r = f a := by
  cases ha : toTarget h target v with
  | ok a =>
    rw [ha] at hr
    exact ⟨a, (Except.ok.inj hr).symm⟩
  | error e =>
    rw [ha] at hr
    cases hr

/-- Conversions to primitive types give values of the boxed type. -/
theorem typeOf?_toPrimitive {p : Primitive} (hr : toPrimitive h p v = .ok r) :
    k.typeOf? r = some (.boxed p) := by
  cases p
  case boolean =>
    cases hb : toBool h v <;> rw [toPrimitive, hb] at hr <;> cases hr
    rfl
  case char =>
    cases hb : toChar h v <;> rw [toPrimitive, hb] at hr <;> cases hr
    rfl
  all_goals
    obtain ⟨a, rfl⟩ := toTarget_map_eq_ok hr
    rfl

theorem toReference_takes (ht : t.isPrimitive = false) (hr : toReference h t v = .ok r) :
    h.Takes t r ∧ (r = v ∨ r.typeCell? = none) := by
  unfold toReference at hr
  split at hr
  · cases hr
    exact ⟨ht, .inr rfl⟩
  · next s hs =>
    split at hr
    · next ha =>
      cases hr
      refine ⟨?_, .inl rfl⟩
      rw [Heap.Takes, hs]
      exact ha
    · cases hr

theorem takes_number (hr : r.isNumber = true) : h.Takes .number r := by
  cases r <;> first | rfl | cases hr

theorem typeCell?_of_boxed {p : Primitive} (hv : h.typeOf? v = some (.boxed p)) :
    v.typeCell? = none := by
  cases v <;> first | rfl | cases hv

/-- Null stays null. -/
theorem null_or_of_ite {x : Except Fault Value}
    (hr : (if v.isNull then .ok .null else x) = .ok r) : r = .null ∨ x = .ok r := by
  split at hr
  · exact .inl (Except.ok.inj hr).symm
  · exact .inr hr

/-- A conversion gives what the type takes: the value itself, or one without a cell. -/
theorem toType_takes (hr : toType h t v = .ok r) :
    h.Takes t r ∧ (r = v ∨ r.typeCell? = none) := by
  cases t with
  | void =>
    cases hr
    exact ⟨rfl, .inr rfl⟩
  | object =>
    cases hr
    exact ⟨h.takes_object v, .inl rfl⟩
  | string =>
    cases hr
    exact ⟨rfl, .inr rfl⟩
  | primitive p =>
    have ht : h.typeOf? r = some (.boxed p) := typeOf?_toPrimitive hr
    exact ⟨Heap.takes_primitive ht, .inr (typeCell?_of_boxed ht)⟩
  | boxed p =>
    obtain rfl | hr := null_or_of_ite hr
    · exact ⟨rfl, .inr rfl⟩
    · have ht : h.typeOf? r = some (.boxed p) := typeOf?_toPrimitive hr
      exact ⟨Heap.takes_of_typeOf? ht, .inr (typeCell?_of_boxed ht)⟩
  | bigInteger =>
    obtain rfl | hr := null_or_of_ite hr
    · exact ⟨rfl, .inr rfl⟩
    · obtain ⟨n, rfl⟩ := toTarget_map_eq_ok hr
      exact ⟨rfl, .inr rfl⟩
  | bigDecimal =>
    obtain rfl | hr := null_or_of_ite hr
    · exact ⟨rfl, .inr rfl⟩
    · obtain ⟨d, rfl⟩ := toTarget_map_eq_ok hr
      exact ⟨rfl, .inr rfl⟩
  | number =>
    obtain rfl | hr := null_or_of_ite hr
    · exact ⟨rfl, .inr rfl⟩
    · split at hr
      · next hv =>
        cases hr
        exact ⟨takes_number hv, .inl rfl⟩
      · split at hr
        · obtain ⟨x, rfl⟩ := toTarget_map_eq_ok hr
          exact ⟨rfl, .inr rfl⟩
        · obtain ⟨n, rfl⟩ := toTarget_map_eq_ok hr
          exact ⟨rfl, .inr rfl⟩
  | instant =>
    simp only [toType] at hr
    cases ht : toInstant h v with
    | error e =>
      rw [ht] at hr
      cases hr
    | ok found =>
      rw [ht] at hr
      cases found <;> cases hr <;> exact ⟨rfl, .inr rfl⟩
  | list | set | map | lambda | methodExpression | cls | array | named =>
    exact toReference_takes rfl hr

theorem livesIn_of_toType (hv : v.LivesIn h) (hr : toType h t v = .ok r) : r.LivesIn h := by
  obtain rfl | hnone := (toType_takes hr).2
  · exact hv
  · intro a ha
    rw [hnone] at ha
    cases ha

/-! ## What conversions refuse -/

theorem toBool_map {β : Type} (f : α → β) (x : Except Fault α) :
    (f <$> x).toBool = x.toBool := by
  cases x <;> rfl

theorem toBool_toTarget (h k : Heap) (target : Target α) (v : Value) :
    (toTarget k target v).toBool = (toTarget h target v).toBool := by
  simp only [toTarget]
  split <;> simp only [Except.toBool]

theorem toBool_toNumber (h k : Heap) (kind : NumberKind) (v : Value) :
    (toNumber k kind v).toBool = (toNumber h kind v).toBool := by
  cases kind <;> simp only [toNumber, toBool_map] <;> exact toBool_toTarget h k _ v

theorem toBool_toBool (h k : Heap) (v : Value) : (toBool k v).toBool = (toBool h v).toBool := by
  cases v <;> simp only [toBool, Except.toBool]

theorem toBool_toChar (h k : Heap) (v : Value) : (toChar k v).toBool = (toChar h v).toBool := by
  unfold toChar
  split
  · rfl
  · rfl
  · rfl
  · cases v.numeral?.bind fun n => char? n.toWord.toUInt64.toUInt16.toNat <;>
      simp only [Except.toBool]

theorem toBool_toInstant (h k : Heap) (v : Value) :
    (toInstant k v).toBool = (toInstant h v).toBool := by
  cases v <;> simp only [toInstant, Except.toBool]
  next s => cases Instant.ofText? s <;> simp only

theorem toBool_toPrimitive (h k : Heap) (p : Primitive) (v : Value) :
    (toPrimitive k p v).toBool = (toPrimitive h p v).toBool := by
  cases p with
  | boolean => simp only [toPrimitive, toBool_map, toBool_toBool h k]
  | char => simp only [toPrimitive, toBool_map, toBool_toChar h k]
  | byte | short | int | long | float | double =>
    simp only [toPrimitive, toBool_toNumber h k]

theorem toBool_ite {c : Bool} {x y : Except Fault Value} (hxy : x.toBool = y.toBool) (z : Value) :
    (if c then .ok z else x : Except Fault Value).toBool = (if c then .ok z else y).toBool := by
  cases c
  · exact hxy
  · rfl

/-- Whether a value has a counterpart does not depend on what cells hold besides types. -/
theorem fits_retained (hk : h.Retains k) (hv : v.LivesIn h) : fits k t v = fits h t v := by
  unfold fits
  cases t with
  | void | object | string => simp only [toType, Except.toBool]
  | primitive p => exact toBool_toPrimitive h k p v
  | boxed p => exact toBool_ite (toBool_toPrimitive h k p v) _
  | bigInteger => exact toBool_ite (toBool_toNumber h k _ v) _
  | bigDecimal => exact toBool_ite (toBool_toNumber h k _ v) _
  | number =>
    refine toBool_ite (toBool_ite ?_ _) _
    split
    · exact toBool_toNumber h k _ v
    · exact toBool_toNumber h k _ v
  | instant =>
    have ht := toBool_toInstant h k v
    simp only [toType]
    cases hh : toInstant h v <;> cases hkv : toInstant k v <;> rw [hh, hkv] at ht <;> cases ht
    · rfl
    · next a b => cases a <;> cases b <;> rfl
  | list | set | map | lambda | methodExpression | cls | array | named =>
    simp only [toType, toReference, Heap.typeOf?_retained hk hv, hk.lineage]
    split
    · rfl
    · split <;> simp only [Except.toBool]

end Coercion

/-- Values of the type are no objects of the host: truth values, characters, numbers and points in
time. -/
def TypeRef.isScalar : TypeRef → Bool
  | primitive _ => true
  | boxed _ => true
  | number => true
  | bigInteger => true
  | bigDecimal => true
  | instant => true
  | _ => false

def Value.isObject : Value → Bool
  | object _ => true
  | _ => false

namespace Coercion
variable {h : Heap} {t s : TypeRef} {v : Value}

/-- An object is no scalar, whatever its class extends. -/
theorem not_fits_object (ht : t.isScalar = true) (a : Address) : fits h t (.object a) = false := by
  cases t with
  | primitive p => cases p <;> rfl
  | boxed p => cases p <;> rfl
  | number | bigInteger | bigDecimal | instant => rfl
  | _ => cases ht

theorem fits_null (h : Heap) (t : TypeRef) : fits h t .null = true := by
  cases t with
  | primitive p => cases p <;> rfl
  | _ => rfl

theorem fits_reference (hs : h.typeOf? v = some s) (ha : h.lineage.assignable t s = true) :
    (toReference h t v).toBool = true := by
  simp only [toReference, hs, if_pos ha]
  rfl

theorem fits_primitive {p : Primitive} (hs : h.typeOf? v = some (.boxed p)) :
    (toPrimitive h p v).toBool = true := by
  cases v <;> cases hs <;> rfl

/-- A value that can be stored as it is converts, but for objects where scalars are stored. -/
theorem fits_of_assignable (hs : h.typeOf? v = some s) (ha : h.lineage.assignable t s = true)
    (ho : ¬(t.isScalar = true ∧ v.isObject = true)) : fits h t v = true := by
  -- Only objects have a type whose class the lineage knows.
  have hnamed : t.isScalar = true → ∀ c, s ≠ .named c := by
    rintro ht c rfl
    cases v <;> first | exact ho ⟨ht, rfl⟩ | cases hs
  have hnull : v.isNull = false := by
    cases v <;> first | rfl | cases hs
  cases t with
  | void | object | string => rfl
  | primitive p =>
    have hp : s = .boxed p := by
      cases v <;> cases hs <;> simp_all [Lineage.assignable, Lineage.accepts, TypeRef.isScalar]
    exact fits_primitive (hp ▸ hs)
  | boxed p =>
    have hp : s = .boxed p := by
      cases v <;> cases hs <;> simp_all [Lineage.assignable, Lineage.accepts, TypeRef.isScalar]
    simp only [fits, toType, hnull]
    exact fits_primitive (hp ▸ hs)
  | number =>
    have hv : v.isNumber = true := by
      cases v <;> cases hs <;>
        simp_all [Lineage.assignable, Lineage.accepts, TypeRef.isScalar, TypeRef.isNumeric,
          Primitive.isNumeric, Value.isNumber]
    simp only [fits, toType, hnull, hv]
    rfl
  | bigInteger =>
    cases v <;> cases hs <;> simp_all [Lineage.assignable, Lineage.accepts, TypeRef.isScalar]
    rfl
  | bigDecimal =>
    cases v <;> cases hs <;> simp_all [Lineage.assignable, Lineage.accepts, TypeRef.isScalar]
    rfl
  | instant =>
    cases v <;> cases hs <;> simp_all [Lineage.assignable, Lineage.accepts, TypeRef.isScalar]
    rfl
  | list | set | map | lambda | methodExpression | cls | array | named =>
    exact fits_reference hs ha

/-- What counts as fitting a parameter converts to its type, but for objects where scalars are
stored: a class may extend a scalar one, and its objects are still no scalars. -/
theorem fits_iff_of_fit? (hf : (Overload.fit? h t v).isSome = true) :
    fits h t v = true ↔ ¬(t.isScalar = true ∧ v.isObject = true) := by
  constructor
  · rintro hfits ⟨ht, hv⟩
    cases v with
    | object a => rw [not_fits_object ht a] at hfits; cases hfits
    | _ => cases hv
  · intro ho
    unfold Overload.fit? at hf
    split at hf
    · next hnone =>
      have hv : v = .null := by
        cases v <;> first | rfl | cases hnone
      exact hv ▸ fits_null h t
    · next s hs =>
      split at hf
      · next he => exact fits_of_assignable hs (eq_of_beq he ▸ Heap.assignable_refl _ _) ho
      · split at hf
        · next ha => exact fits_of_assignable hs ha ho
        · split at hf
          · next he =>
            rw [eq_of_beq he]
            rfl
          · split at hf
            · next hfits => exact hfits
            · cases hf

end Coercion

/-! ## Why conversions fail -/

namespace Coercion

variable {α : Type} {h : Heap} {v r : Value} {e : Fault}

/-- Where it fails, it is because a value has no counterpart. -/
def Refuses (r : Except Fault α) : Prop := ∀ e, r = .error e → e.kind = .coercion

theorem Refuses.ok (a : α) : Refuses (.ok a : Except Fault α) := nofun

theorem Refuses.refusal (h : Heap) (v : Value) (target : String) :
    Refuses (.error (refusal h v target) : Except Fault α) := by
  rintro _ ⟨⟩
  rfl

theorem Refuses.map {β : Type} {r : Except Fault α} (f : α → β) (hr : Refuses r) :
    Refuses (f <$> r) := by
  cases r with
  | ok a => exact .ok _
  | error d =>
    rintro e he
    cases he
    exact hr d rfl

theorem Refuses.ite {c : Prop} [Decidable c] {r s : Except Fault α} (hr : Refuses r)
    (hs : Refuses s) : Refuses (if c then r else s) := by
  split
  · exact hr
  · exact hs

theorem toTarget_refuses (t : Target α) : Refuses (toTarget h t v) := by
  unfold toTarget
  dsimp only
  split
  · exact .ok _
  · exact .refusal _ _ _

theorem toNumber_refuses (k : NumberKind) : Refuses (toNumber h k v) := by
  cases k <;> exact .map _ (toTarget_refuses _)

theorem toPrimitive_refuses (p : Primitive) : Refuses (toPrimitive h p v) := by
  cases p with
  | boolean =>
    refine .map _ ?_
    unfold toBool
    split
    · exact .ok _
    · exact .ok _
    · exact .ok _
    · exact .refusal _ _ _
  | char =>
    refine .map _ ?_
    unfold toChar
    split
    · exact .ok _
    · exact .ok _
    · exact .ok _
    · split
      · exact .ok _
      · exact .refusal _ _ _
  | byte | short | int | long | float | double =>
    unfold toPrimitive
    exact toNumber_refuses _

theorem toReference_refuses (t : TypeRef) : Refuses (toReference h t v) := by
  unfold toReference
  split
  · exact .ok _
  · exact .ite (.ok _) (.refusal _ _ _)

theorem toInstant_refuses : Refuses (toInstant h v) := by
  unfold toInstant
  split
  · exact .ok _
  · exact .ok _
  · split
    · exact .ok _
    · exact .refusal _ _ _
  · exact .refusal _ _ _

theorem toType_refuses (t : TypeRef) : Refuses (toType h t v) := by
  unfold toType
  split
  · exact .ok _
  · exact .ok _
  · exact .ok _
  · exact toPrimitive_refuses _
  · exact .ite (.ok _) (toPrimitive_refuses _)
  · exact .ite (.ok _) (toNumber_refuses _)
  · exact .ite (.ok _) (toNumber_refuses _)
  · exact .ite (.ok _) (.ite (.ok _) (.ite (toNumber_refuses _) (toNumber_refuses _)))
  · cases hi : toInstant h v with
    | ok t => cases t <;> exact .ok _
    | error d =>
      rintro e he
      cases he
      exact toInstant_refuses d hi
  · exact toReference_refuses _

theorem Refuses.writable {r : Except Fault α} (hr : Refuses r) (he : r = .error e) :
    e.kind ≠ .propertyNotWritable := by
  rw [hr e he]
  decide

end Coercion

end ExprLang
