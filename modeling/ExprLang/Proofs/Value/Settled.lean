import ExprLang.Proofs.Number.Canonical
import ExprLang.Proofs.Value.Conversion

/-! A converted value belongs to the type and stays as it is when it is converted again. So does
every value that the type takes, but for objects. -/

namespace ExprLang

/-- Single precision numbers are as their format stores them. -/
def Value.Rounded (v : Value) : Prop := ∀ x, v = .float x → x.Canonical

theorem Heap.typeOf?_eq_none {h : Heap} {v : Value} : h.typeOf? v = none ↔ v = .null := by
  cases v <;> simp [typeOf?]

namespace Coercion
variable {α : Type} {h : Heap} {t s : TypeRef} {v r : Value}

/-! ## Numbers -/

/-- What a value becomes is the zero, was read from a text or made from a number. -/
theorem toTarget_eq_ok {target : Target α} {a : α} (ha : toTarget h target v = .ok a) :
    a = target.zero ∨ (∃ s, target.ofText? s = some a) ∨ ∃ n, target.ofNumeral? n = some a := by
  unfold toTarget at ha
  dsimp only at ha
  split at ha
  · next b hb =>
    cases ha
    split at hb
    · exact .inl (Option.some.inj hb).symm
    · split at hb
      · exact .inl (Option.some.inj hb).symm
      · exact .inr (.inl ⟨_, hb⟩)
    · obtain ⟨n, -, hn⟩ := Option.bind_eq_some_iff.mp hb
      exact .inr (.inr ⟨n, hn⟩)
  · cases ha

theorem toTarget_float_canonical {x : Single} (hx : toTarget h float v = .ok x) : x.Canonical := by
  rcases toTarget_eq_ok hx with rfl | ⟨s, hs⟩ | ⟨n, hn⟩
  · exact Binary.canonical_zero FloatFormat.proper_single false
  · have hread : (Binary.ofText s).toOption = some x := hs
    cases ht : (Binary.ofText s : Except Binary.TextFault Single) with
    | error e =>
      rw [ht] at hread
      cases hread
    | ok y =>
      rw [ht] at hread
      cases hread
      exact Binary.canonical_ofText FloatFormat.proper_single ht
  · cases hn
    exact Binary.canonical_convert FloatFormat.proper_single _

/-! ## Primitive types -/

theorem toPrimitive_rounded {p : Primitive} (hr : toPrimitive h p v = .ok r) : r.Rounded := by
  rintro x rfl
  have hp : p = .float := by
    have ht := typeOf?_toPrimitive (k := h) hr
    cases ht
    rfl
  subst hp
  cases hx : toTarget h float v with
  | error e =>
    rw [toPrimitive, toNumber, hx] at hr
    cases hr
  | ok y =>
    rw [toPrimitive, toNumber, hx] at hr
    cases hr
    exact toTarget_float_canonical hx

/-- A value of the boxed type is one of the primitive type. -/
theorem toPrimitive_boxed {p : Primitive} (hv : v.Rounded) (hs : h.typeOf? v = some (.boxed p)) :
    toPrimitive h p v = .ok v := by
  cases v with
  | float x =>
    cases hs
    have hx := Binary.convert_convert FloatFormat.narrow_single (hv x rfl)
    exact congrArg (fun y => Except.ok (Value.float y)) hx
  | byte n =>
    cases hs
    exact congrArg (fun n => Except.ok (Value.byte n)) (Int8.toInt8_toInt64 n)
  | short n =>
    cases hs
    exact congrArg (fun n => Except.ok (Value.short n)) (Int16.toInt16_toInt64 n)
  | int n =>
    cases hs
    exact congrArg (fun n => Except.ok (Value.int n)) (Int32.toInt32_toInt64 n)
  | bool | char | long | double =>
    cases hs
    rfl
  | _ => cases hs

theorem toPrimitive_settled {p : Primitive} (hr : toPrimitive h p v = .ok r) :
    toPrimitive h p r = .ok r :=
  toPrimitive_boxed (toPrimitive_rounded hr) (typeOf?_toPrimitive hr)

/-! ## All types -/

theorem toReference_eq (hr : toReference h t v = .ok r) : r = v := by
  unfold toReference at hr
  split at hr
  · next hnone =>
    cases hr
    exact (Heap.typeOf?_eq_none.mp hnone).symm
  · split at hr
    · cases hr
      rfl
    · cases hr

/-- A value that is not null under a check for null. -/
theorem unless_null {x : Except Fault Value} (hx : x = .ok v) :
    (if v.isNull then .ok .null else x) = .ok v := by
  split
  · next hn =>
    cases v <;> first | rfl | cases hn
  · exact hx

theorem toType_number (hv : v.isNumber = true) : toType h .number v = .ok v :=
  unless_null (by rw [if_pos hv])

theorem toType_settled (hr : toType h t v = .ok r) : toType h t r = .ok r := by
  cases t with
  | void =>
    cases hr
    rfl
  | object => rfl
  | string =>
    cases hr
    rfl
  | primitive p => exact toPrimitive_settled hr
  | boxed p =>
    obtain rfl | hr := null_or_of_ite hr
    · rfl
    · exact unless_null (toPrimitive_settled hr)
  | bigInteger =>
    obtain rfl | hr := null_or_of_ite hr
    · rfl
    · obtain ⟨n, rfl⟩ := toTarget_map_eq_ok hr
      rfl
  | bigDecimal =>
    obtain rfl | hr := null_or_of_ite hr
    · rfl
    · obtain ⟨d, rfl⟩ := toTarget_map_eq_ok hr
      rfl
  | number =>
    obtain rfl | hr := null_or_of_ite hr
    · rfl
    · split at hr
      · next hv =>
        cases hr
        exact toType_number hv
      · split at hr
        · obtain ⟨x, rfl⟩ := toTarget_map_eq_ok hr
          rfl
        · obtain ⟨n, rfl⟩ := toTarget_map_eq_ok hr
          rfl
  | instant =>
    simp only [toType] at hr
    cases ht : toInstant h v with
    | error e =>
      rw [ht] at hr
      cases hr
    | ok found =>
      rw [ht] at hr
      cases found <;> cases hr <;> rfl
  | list | set | map | lambda | methodExpression | cls | array | named =>
    obtain rfl := toReference_eq hr
    exact hr

theorem toType_rounded (hv : v.Rounded) (hr : toType h t v = .ok r) : r.Rounded := by
  rintro x rfl
  cases t with
  | primitive p => exact toPrimitive_rounded hr x rfl
  | boxed p =>
    obtain hnull | hr := null_or_of_ite hr
    · cases hnull
    · exact toPrimitive_rounded hr x rfl
  | bigInteger | bigDecimal =>
    obtain hnull | hr := null_or_of_ite hr
    · cases hnull
    · obtain ⟨n, hn⟩ := toTarget_map_eq_ok hr
      cases hn
  | number =>
    obtain hnull | hr := null_or_of_ite hr
    · cases hnull
    · split at hr
      · cases hr
        exact hv x rfl
      · split at hr
        all_goals
          obtain ⟨n, hn⟩ := toTarget_map_eq_ok hr
          cases hn
  | object =>
    cases hr
    exact hv x rfl
  | void | string => cases hr
  | instant =>
    simp only [toType] at hr
    cases ht : toInstant h v with
    | error e =>
      rw [ht] at hr
      cases hr
    | ok found =>
      rw [ht] at hr
      cases found <;> cases hr
  | list | set | map | lambda | methodExpression | cls | array | named =>
    obtain rfl := toReference_eq hr
    exact hv x rfl

/-- Most types take nothing but themselves, primitive types and boxed ones also each other, and numbers
what is numeric. -/
theorem source_of_assignable {l : Lineage} (hs : ∀ c, s ≠ .named c) (ha : l.assignable t s = true) :
    match t with
    | .void | .string | .bigInteger | .bigDecimal | .instant => s = t
    | .primitive p | .boxed p => s = .primitive p ∨ s = .boxed p
    | .number => s.isNumeric = true
    | _ => True := by
  cases t with
  | object | list | set | map | lambda | methodExpression | cls | named | array => trivial
  | _ =>
    have haccepts : l.accepts _ s = true := ha
    cases s with
    | named c => exact absurd rfl (hs c)
    | _ => simp_all [Lineage.accepts, TypeRef.isNumeric]

/-- Only objects have a type whose class the lineage knows. -/
theorem typeOf?_not_named (ho : v.isObject = false) (hs : h.typeOf? v = some s) :
    ∀ c, s ≠ .named c := by
  rintro c rfl
  cases v with
  | object => cases ho
  | _ => cases hs

theorem isNumber_of_typeOf? (hs : h.typeOf? v = some s) (hn : s.isNumeric = true) :
    v.isNumber = true := by
  cases v <;> cases hs <;> first | rfl | cases hn

/-- The type of a value is not primitive. -/
theorem boxed_of_typeOf? {p : Primitive} (hs : h.typeOf? v = some s)
    (hp : s = .primitive p ∨ s = .boxed p) : h.typeOf? v = some (.boxed p) := by
  rcases hp with rfl | rfl
  · cases v <;> cases hs
  · exact hs

/-- A value that the type takes converts to itself, unless it is an object. -/
theorem toType_of_assignable (ho : v.isObject = false) (hv : v.Rounded)
    (hs : h.typeOf? v = some s) (ha : h.lineage.assignable t s = true) :
    toType h t v = .ok v := by
  have hsource := source_of_assignable (typeOf?_not_named ho hs) ha
  cases t with
  | object => rfl
  | primitive p => exact toPrimitive_boxed hv (boxed_of_typeOf? hs hsource)
  | boxed p => exact unless_null (toPrimitive_boxed hv (boxed_of_typeOf? hs hsource))
  | number => exact toType_number (isNumber_of_typeOf? hs hsource)
  | void | string | bigInteger | bigDecimal | instant =>
    rw [show s = _ from hsource] at hs
    cases v <;> cases hs <;> rfl
  | list | set | map | lambda | methodExpression | cls | array | named =>
    exact show toReference h _ v = .ok v by simp only [toReference, hs, if_pos ha]

/-- A conversion gives null, for types that are not primitive, or a value that can be stored where
the type is declared, and converting that again changes nothing. It changes nothing either of a
value that could be stored there, unless this is an object. Numbers stay rounded. -/
theorem conversions_settle (h : Heap) (t : TypeRef) (v : Value) :
    (∀ r, toType h t v = .ok r →
      (r = .null ∧ t.isPrimitive = false ∨
        ∃ s, h.typeOf? r = some s ∧ h.lineage.assignable t s = true) ∧
      toType h t r = .ok r ∧ (v.Rounded → r.Rounded)) ∧
    (v.isObject = false → v.Rounded →
      ∀ s, h.typeOf? v = some s → h.lineage.assignable t s = true → toType h t v = .ok v) := by
  refine ⟨fun r hr => ⟨?_, toType_settled hr, fun hv => toType_rounded hv hr⟩,
    fun ho hv s hs ha => toType_of_assignable ho hv hs ha⟩
  have htakes := (toType_takes hr).1
  unfold Heap.Takes at htakes
  split at htakes
  · next hnone => exact .inl ⟨Heap.typeOf?_eq_none.mp hnone, htakes⟩
  · next s hs => exact .inr ⟨s, hs, htakes⟩

/-- A text that becomes a number of single precision, and the number that it becomes. -/
theorem text_settles_as_float :
    let h : Heap := ⟨⟨#[]⟩, #[]⟩
    let x : Single := .ofRatio false 3 2
    toType h (.primitive .float) (.text "1.5") = .ok (.float x) ∧
      h.lineage.assignable (.primitive .float) (.boxed .float) = true ∧
      toType h (.primitive .float) (.float x) = .ok (.float x) ∧
      toType h .number (.float x) = .ok (.float x) := by
  intro h x
  have hread : toType h (.primitive .float) (.text "1.5") = .ok (.float x) := rfl
  have hrounded : (Value.float x).Rounded := by
    rintro _ ⟨⟩
    exact Binary.canonical_ofRatio FloatFormat.proper_single false 3 (by decide)
  refine ⟨hread, ?_, ((conversions_settle h _ _).1 _ hread).2.1,
    (conversions_settle h .number (.float x)).2 rfl hrounded _ rfl (by decide)⟩
  rcases ((conversions_settle h _ _).1 _ hread).1 with ⟨hnull, -⟩ | ⟨s, hs, ha⟩
  · cases hnull
  · cases hs
    exact ha

end Coercion

end ExprLang
