import ExprLang.Proofs.Value.Atom

/-! Values that look alike, each in its own heap. Of a value that is no atom, conversions and operators
see the type and the text, and of two such values how they compare. -/

namespace ExprLang

variable {α β : Type} {g h : Heap} {v w a b a' b' : Value}

/-- The second value looks in the second heap as the first one does in the first: they are the same
atom, or no atoms, but of one type and of one text. -/
structure Heap.Resembles (g h : Heap) (v w : Value) : Prop where
  lineage : h.lineage = g.lineage
  atom : w = v ∨ v.isAtom = false ∧ w.isAtom = false
  typeOf? : h.typeOf? w = g.typeOf? v
  display : h.display w = g.display v

/-- Two values that look alike and compare alike. -/
structure Heap.Compares (g h : Heap) (a b a' b' : Value) : Prop where
  left : g.Resembles h a a'
  right : g.Resembles h b b'
  equal : h.equal a' b' = g.equal a b
  objectEquals : Comparison.objectEquals h a' b' = Comparison.objectEquals g a b
  objectOrder? : Comparison.objectOrder? h a' b' = Comparison.objectOrder? g a b

/-! ## Values that are no atoms -/

namespace Value

variable (hv : v.isAtom = false)
include hv

theorem isNull_of_not_atom : v.isNull = false := by
  cases v <;> first | rfl | cases hv

theorem isNumber_of_not_atom : v.isNumber = false := by
  cases v <;> first | rfl | cases hv

theorem text?_of_not_atom : v.text? = none := by
  cases v <;> first | rfl | cases hv

end Value

namespace Coercion

variable (hv : v.isAtom = false)
include hv

theorem toTarget_of_not_atom (t : Target α) : toTarget h t v = .error (refusal h v t.name) := by
  cases v <;> first | rfl | cases hv

theorem toBool_of_not_atom : toBool h v = .error (refusal h v "Boolean") := by
  cases v <;> first | rfl | cases hv

theorem toChar_of_not_atom : toChar h v = .error (refusal h v "Character") := by
  cases v <;> first | rfl | cases hv

theorem toInstant_of_not_atom : toInstant h v = .error (refusal h v "Instant") := by
  cases v <;> first | rfl | cases hv

theorem toText_of_not_atom : toText h v = h.display v := by
  cases v <;> first | rfl | cases hv

end Coercion

/-! ## Conversions -/

namespace Heap.Resembles

open Coercion

variable (hr : g.Resembles h v w)
include hr

/-- What tells no two values apart that are no atoms. -/
theorem same {f : Value → β} {y : β} (hf : ∀ v : Value, v.isAtom = false → f v = y) : f w = f v := by
  rcases hr.atom with rfl | ⟨hv, hw⟩
  · rfl
  · rw [hf v hv, hf w hw]

theorem isNull : w.isNull = v.isNull := hr.same fun _ => Value.isNull_of_not_atom

theorem isNumber : w.isNumber = v.isNumber := hr.same fun _ => Value.isNumber_of_not_atom

theorem text? : w.text? = v.text? := hr.same fun _ => Value.text?_of_not_atom

theorem typeName : h.typeName w = g.typeName v := by
  simp only [Heap.typeName, hr.typeOf?, hr.lineage]

theorem refusal (target : String) : refusal h w target = refusal g v target := by
  simp only [Coercion.refusal, hr.display, hr.typeName]

theorem toTarget (t : Target α) : toTarget h t w = toTarget g t v := by
  rcases hr.atom with rfl | ⟨hv, hw⟩
  · simp only [Coercion.toTarget, hr.refusal]
  · rw [toTarget_of_not_atom hv, toTarget_of_not_atom hw, hr.refusal]

theorem toNumber (k : NumberKind) : toNumber h k w = toNumber g k v := by
  cases k <;> simp only [Coercion.toNumber, hr.toTarget]

theorem toBool : toBool h w = toBool g v := by
  rcases hr.atom with rfl | ⟨hv, hw⟩
  · cases w <;> simp only [Coercion.toBool, hr.refusal]
  · rw [toBool_of_not_atom hv, toBool_of_not_atom hw, hr.refusal]

theorem toChar : toChar h w = toChar g v := by
  rcases hr.atom with rfl | ⟨hv, hw⟩
  · cases w <;> simp only [Coercion.toChar, hr.refusal]
  · rw [toChar_of_not_atom hv, toChar_of_not_atom hw, hr.refusal]

theorem toText : toText h w = toText g v := by
  rcases hr.atom with rfl | ⟨hv, hw⟩
  · cases w <;> simp only [Coercion.toText, hr.display]
  · rw [toText_of_not_atom hv, toText_of_not_atom hw, hr.display]

theorem toInstant : toInstant h w = toInstant g v := by
  rcases hr.atom with rfl | ⟨hv, hw⟩
  · cases w <;> simp only [Coercion.toInstant, hr.refusal]
  · rw [toInstant_of_not_atom hv, toInstant_of_not_atom hw, hr.refusal]

theorem toPrimitive (p : Primitive) : toPrimitive h p w = toPrimitive g p v := by
  cases p <;> simp only [Coercion.toPrimitive, hr.toBool, hr.toChar, hr.toNumber]

/-- A conversion refuses both values, makes the same atom of both, or leaves each as it is. -/
theorem toType (t : TypeRef) :
    (∃ e, toType g t v = .error e ∧ toType h t w = .error e) ∨
      (∃ r : Value, r.isAtom = true ∧ toType g t v = .ok r ∧ toType h t w = .ok r) ∨
      (toType g t v = .ok v ∧ toType h t w = .ok w) := by
  have computed {x y : Except Fault Value} (hxy : y = x) (hx : Value.AtomIn x) :
      (∃ e, x = .error e ∧ y = .error e) ∨
        (∃ r : Value, r.isAtom = true ∧ x = .ok r ∧ y = .ok r) ∨ (x = .ok v ∧ y = .ok w) := by
    subst hxy
    cases y with
    | error e => exact .inl ⟨e, rfl, rfl⟩
    | ok r => exact .inr (.inl ⟨r, hx r rfl, rfl, rfl⟩)
  have nullable {x y : Except Fault Value} (hxy : (∃ e, x = .error e ∧ y = .error e) ∨
        (∃ r : Value, r.isAtom = true ∧ x = .ok r ∧ y = .ok r) ∨ (x = .ok v ∧ y = .ok w)) :
      (∃ e, (if v.isNull then .ok .null else x) = .error e ∧
          (if w.isNull then .ok .null else y) = .error e) ∨
        (∃ r : Value, r.isAtom = true ∧ (if v.isNull then .ok .null else x) = .ok r ∧
          (if w.isNull then .ok .null else y) = .ok r) ∨
        ((if v.isNull then .ok .null else x) = .ok v ∧
          (if w.isNull then .ok .null else y) = .ok w) := by
    rw [hr.isNull]
    split
    · exact .inr (.inl ⟨.null, rfl, rfl, rfl⟩)
    · exact hxy
  have number (k : NumberKind) := computed (hr.toNumber k) (toNumber_atom g k v)
  have primitive (p : Primitive) := computed (hr.toPrimitive p) (toPrimitive_atom g p v)
  have reference (t : TypeRef) :
      (∃ e, toReference g t v = .error e ∧ toReference h t w = .error e) ∨
        (∃ r : Value, r.isAtom = true ∧ toReference g t v = .ok r ∧ toReference h t w = .ok r) ∨
        (toReference g t v = .ok v ∧ toReference h t w = .ok w) := by
    simp only [toReference, hr.typeOf?, hr.lineage, hr.refusal]
    split
    · exact .inr (.inl ⟨.null, rfl, rfl, rfl⟩)
    · split
      · exact .inr (.inr ⟨rfl, rfl⟩)
      · exact .inl ⟨_, rfl, rfl⟩
  cases t with
  | void => exact .inr (.inl ⟨.null, rfl, rfl, rfl⟩)
  | object => exact .inr (.inr ⟨rfl, rfl⟩)
  | string => exact .inr (.inl ⟨.text (Coercion.toText g v), rfl, rfl, by rw [← hr.toText]; rfl⟩)
  | primitive p => exact primitive p
  | boxed p => exact nullable (primitive p)
  | bigInteger => exact nullable (number .bigInt)
  | bigDecimal => exact nullable (number .decimal)
  | number =>
    refine nullable ?_
    rw [hr.isNumber, hr.text?]
    split
    · exact .inr (.inr ⟨rfl, rfl⟩)
    · split
      · exact number .double
      · exact number .long
  | instant =>
    refine computed (by simp only [Coercion.toType, hr.toInstant])
      (ResultIn.bind_iff.mpr fun found _ => ?_)
    cases found <;> exact ResultIn.ok_iff.mpr rfl
  | _ => exact reference _

end Heap.Resembles

/-! ## Operators -/

namespace Heap.Resembles

open Arithmetic

variable (hr : g.Resembles h v w)
include hr

theorem family : family w = family v :=
  hr.same (y := .word) fun v hv => by cases v <;> first | rfl | cases hv

theorem isLarge : isLarge w = isLarge v :=
  hr.same (y := false) fun v hv => by cases v <;> first | rfl | cases hv

theorem isOperand : isOperand w = isOperand v :=
  hr.same (y := false) fun v hv => by cases v <;> first | rfl | cases hv

theorem checkOperand : checkOperand h w = checkOperand g v := by
  simp only [Arithmetic.checkOperand, hr.isOperand, hr.refusal]

theorem neg : neg h w = neg g v := by
  rcases hr.atom with rfl | ⟨hv, hw⟩
  · cases w <;> simp only [Arithmetic.neg, hr.toTarget]
  · have refused {k : Heap} {u : Value} (hu : u.isAtom = false) :
        Arithmetic.neg k u = .error (Coercion.refusal k u "Long") := by
      cases u <;> first | rfl | cases hu
    rw [refused hv, refused hw, hr.refusal]

end Heap.Resembles

/-- Two truth values compare by themselves, other values as the host orders them. -/
theorem Comparison.order_bools (k : Heap) (x y : Value) (e : Fault) :
    (match x, y with
      | .bool s, .bool t => (.ok (compare s.toNat t.toNat) : Except Fault Ordering)
      | x, y =>
        match Comparison.objectOrder? k x y with
        | some o => .ok o
        | none => .error e) =
    match x.bool?, y.bool? with
      | some s, some t => .ok (compare s.toNat t.toNat)
      | _, _ =>
        match Comparison.objectOrder? k x y with
        | some o => .ok o
        | none => .error e := by
  cases x <;> first | rfl | (cases y <;> rfl)

namespace Heap.Compares

open Arithmetic Comparison

variable (hc : g.Compares h a b a' b')
include hc

theorem both (t : Coercion.Target α) : both h t a' b' = both g t a b := by
  simp only [Arithmetic.both, hc.left.toTarget, hc.right.toTarget]

theorem guarded (r : Except Fault Value) : guarded h a' b' r = guarded g a b r := by
  simp only [Arithmetic.guarded, hc.left.isNull, hc.right.isNull, hc.left.checkOperand,
    hc.right.checkOperand]

theorem common : common a' b' = common a b := by
  simp only [Arithmetic.common, hc.left.family, hc.right.family]

theorem apply (o : Operation) : o.apply h a' b' = o.apply g a b := by
  have hrun (f : Family) : o.run h f a' b' = o.run g f a b := by
    cases f <;> simp only [Operation.run, hc.both]
  simp only [Operation.apply, hc.guarded, hc.common, hrun]

theorem div : div h a' b' = div g a b := by
  simp only [Arithmetic.div, hc.guarded, hc.both, hc.left.isLarge, hc.right.isLarge]

theorem rem : rem h a' b' = rem g a b := by
  simp only [Arithmetic.rem, hc.guarded, hc.both, hc.common]

/-- Whether either value is of a kind to which only atoms belong. -/
theorem either {p : Value → Bool} (hp : ∀ v : Value, v.isAtom = false → p v = false) :
    either p a' b' = either p a b := by
  simp only [Comparison.either, hc.left.same hp, hc.right.same hp]

theorem isInstant : Comparison.either isInstant a' b' = Comparison.either isInstant a b :=
  hc.either fun v hv => by cases v <;> first | rfl | cases hv

theorem isText : Comparison.either isText a' b' = Comparison.either isText a b :=
  hc.either fun v hv => by cases v <;> first | rfl | cases hv

theorem scale? : scale? a' b' = scale? a b := by
  have hdecimal : Comparison.either isDecimal a' b' = Comparison.either isDecimal a b :=
    hc.either fun v hv => by cases v <;> first | rfl | cases hv
  have hfloating : Comparison.either isFloating a' b' = Comparison.either isFloating a b :=
    hc.either fun v hv => by cases v <;> first | rfl | cases hv
  have hbig : Comparison.either isBig a' b' = Comparison.either isBig a b :=
    hc.either fun v hv => by cases v <;> first | rfl | cases hv
  have hword : Comparison.either isWord a' b' = Comparison.either isWord a b :=
    hc.either fun v hv => by cases v <;> first | rfl | cases hv
  simp only [Comparison.scale?, hdecimal, hfloating, hbig, hword]

theorem onScale (s : Scale) : onScale h s a' b' = onScale g s a b := by
  cases s <;> simp only [Comparison.onScale, hc.left.toTarget, hc.right.toTarget]

theorem equals : equals h a' b' = equals g a b := by
  have hbool : Comparison.either isBool a' b' = Comparison.either isBool a b :=
    hc.either fun v hv => by cases v <;> first | rfl | cases hv
  simp only [Comparison.equals, hc.left.isNull, hc.right.isNull, hc.equal, hc.scale?, hc.onScale,
    hbool, hc.isInstant, hc.isText, hc.left.toBool, hc.right.toBool, hc.left.toInstant,
    hc.right.toInstant, hc.left.toText, hc.right.toText, hc.objectEquals]

theorem orderNaN : orderNaN a' b' = orderNaN a b := by
  have hnan (v : Value) (hv : v.isAtom = false) : isNaN v = false := by
    cases v <;> first | rfl | cases hv
  simp only [Comparison.orderNaN, hc.left.same hnan, hc.right.same hnan]

theorem order : order h a' b' = order g a b := by
  have hbool (v : Value) (hv : v.isAtom = false) : v.bool? = none := by
    cases v <;> first | rfl | cases hv
  simp only [Comparison.order, hc.scale?, hc.onScale, hc.orderNaN, hc.isInstant, hc.isText,
    hc.left.toInstant, hc.right.toInstant, hc.left.toText, hc.right.toText, hc.right.display,
    hc.right.typeName, hc.left.typeName]
  cases Comparison.scale? a b with
  | some s => rfl
  | none =>
    dsimp only
    split
    · rfl
    split
    · rfl
    refine (order_bools h a' b' _).trans ?_
    rw [hc.left.same hbool, hc.right.same hbool, hc.objectOrder?]
    exact (order_bools g a b _).symm

theorem strictly (p : Ordering → Bool) : strictly h p a' b' = strictly g p a b := by
  simp only [Comparison.strictly, hc.left.isNull, hc.right.isNull, hc.order]

theorem weakly (p : Ordering → Bool) : weakly h p a' b' = weakly g p a b := by
  simp only [Comparison.weakly, hc.left.isNull, hc.right.isNull, hc.order]

/-- The strict operators have the same value. -/
theorem applyStrict (op : BinaryOp) :
    Evaluation.applyStrict h op a' b' = Evaluation.applyStrict g op a b := by
  cases op with
  | add | sub | mul => exact hc.apply _
  | div => exact hc.div
  | mod => exact hc.rem
  | eq | ne => simp only [Evaluation.applyStrict, hc.equals]
  | lt => simp only [Evaluation.applyStrict, less, hc.strictly]
  | gt => simp only [Evaluation.applyStrict, greater, hc.strictly]
  | le => simp only [Evaluation.applyStrict, lessEqual, hc.weakly]
  | ge => simp only [Evaluation.applyStrict, greaterEqual, hc.weakly]
  | _ => simp only [Evaluation.applyStrict, hc.left.toText, hc.right.toText]

end Heap.Compares

/-! ## Names of properties -/

namespace Resolution

theorem nameOf_eq_ite (h : Heap) (v : Value) :
    nameOf h v = if v.isNull then .error .nullPropertyName else .ok (h.display v) := by
  cases v <;> rfl

/-- What looks alike names the same property. -/
theorem nameOf_resembles (hr : g.Resembles h v w) : nameOf h w = nameOf g v := by
  rw [nameOf_eq_ite, nameOf_eq_ite, hr.isNull, hr.display]

end Resolution

end ExprLang
