import ExprLang.Evaluation.Step
import ExprLang.Proofs.Value.Conversion

/-! Values that hold no other values, and the computations that give such. -/

namespace ExprLang

variable {α β ε : Type}

/-! ## Results -/

/-- The result, if there is one, has the property. -/
def ResultIn (p : α → Prop) (r : Except ε α) : Prop := ∀ a, r = .ok a → p a

namespace ResultIn

variable {p q : α → Prop}

@[simp] theorem ok_iff {a : α} : ResultIn p (.ok a : Except ε α) ↔ p a :=
  ⟨fun h => h a rfl, by rintro h _ ⟨⟩; exact h⟩

@[simp] theorem pure_iff {a : α} : ResultIn p (pure a : Except ε α) ↔ p a := ok_iff

@[simp] theorem error {e : ε} : ResultIn p (.error e : Except ε α) := nofun

@[simp] theorem throw {e : ε} : ResultIn p (throw e : Except ε α) := nofun

@[simp] theorem bind_iff {x : Except ε β} {f : β → Except ε α} :
    ResultIn p (x >>= f) ↔ ∀ b, x = .ok b → ResultIn p (f b) := by
  cases x with
  | ok b => exact ⟨by rintro h _ ⟨⟩; exact h, fun h => h b rfl⟩
  | error e => exact ⟨fun _ => nofun, fun _ => nofun⟩

@[simp] theorem map_iff {x : Except ε β} {f : β → α} :
    ResultIn p (f <$> x) ↔ ∀ b, x = .ok b → p (f b) := by
  cases x with
  | ok b => exact ⟨by rintro h _ ⟨⟩; exact h _ rfl, by rintro h _ ⟨⟩; exact h b rfl⟩
  | error e => exact ⟨fun _ => nofun, fun _ => nofun⟩

@[simp] theorem mapError_iff {δ : Type} {x : Except ε α} {f : ε → δ} :
    ResultIn p (x.mapError f) ↔ ResultIn p x := by
  cases x with
  | ok a => exact ok_iff.trans ok_iff.symm
  | error e => exact ⟨fun _ => error, fun _ => error⟩

theorem imp {r : Except ε α} (h : ResultIn p r) (hpq : ∀ a, p a → q a) : ResultIn q r :=
  fun a ha => hpq a (h a ha)

theorem ite {c : Prop} [Decidable c] {x y : Except ε α} (hx : ResultIn p x) (hy : ResultIn p y) :
    ResultIn p (if c then x else y) := by
  split
  · exact hx
  · exact hy

end ResultIn

/-! ## Atoms -/

namespace Value

/-- A value that holds no other one and no tree. -/
def isAtom : Value → Bool
  | .list _ | .set _ | .map _ | .array _ | .object _ | .lambda _ | .method _ => false
  | _ => true

/-- A result that is an atom. -/
abbrev AtomIn (r : Except ε Value) : Prop := ResultIn (fun v => v.isAtom = true) r

end Value

open Value (AtomIn)

namespace Coercion

variable {h : Heap} {t : TypeRef} {v : Value}

theorem isAtom_of_boxed {p : Primitive} (hv : h.typeOf? v = some (.boxed p)) : v.isAtom = true := by
  cases v <;> first | rfl | cases hv

theorem toNumber_atom (h : Heap) (k : NumberKind) (v : Value) : AtomIn (toNumber h k v) := by
  cases k <;> simp [toNumber, Value.isAtom]

theorem toPrimitive_atom (h : Heap) (p : Primitive) (v : Value) : AtomIn (toPrimitive h p v) :=
  fun _ hr => isAtom_of_boxed (typeOf?_toPrimitive (k := h) hr)

/-- A conversion gives the value itself, or an atom. -/
theorem toType_self_or_atom (h : Heap) (t : TypeRef) (v : Value) :
    ResultIn (fun r => r = v ∨ r.isAtom = true) (toType h t v) := by
  have atom {x : Except Fault Value} (hx : AtomIn x) :
      ResultIn (fun r => r = v ∨ r.isAtom = true) x := hx.imp fun _ => .inr
  have reference (t : TypeRef) :
      ResultIn (fun r => r = v ∨ r.isAtom = true) (toReference h t v) := by
    unfold toReference
    split
    · exact atom (ResultIn.ok_iff.mpr rfl)
    · exact .ite (by simp) .error
  have nullable {x : Except Fault Value} (hx : ResultIn (fun r => r = v ∨ r.isAtom = true) x) :
      ResultIn (fun r => r = v ∨ r.isAtom = true) (if v.isNull then .ok .null else x) :=
    .ite (atom (ResultIn.ok_iff.mpr rfl)) hx
  cases t with
  | void => exact atom (ResultIn.ok_iff.mpr rfl)
  | object => exact ResultIn.ok_iff.mpr (.inl rfl)
  | string => exact atom (ResultIn.ok_iff.mpr rfl)
  | primitive p => exact atom (toPrimitive_atom h p v)
  | boxed p => exact nullable (atom (toPrimitive_atom h p v))
  | bigInteger | bigDecimal => exact nullable (atom (toNumber_atom h _ v))
  | number =>
    exact nullable (.ite (ResultIn.ok_iff.mpr (.inl rfl))
      (.ite (atom (toNumber_atom h _ v)) (atom (toNumber_atom h _ v))))
  | instant =>
    refine ResultIn.bind_iff.mpr fun found _ => ?_
    cases found <;> exact atom (ResultIn.ok_iff.mpr rfl)
  | list | set | map | lambda | methodExpression | cls | array | named => exact reference _

end Coercion

/-! ## Operators -/

namespace Arithmetic

variable (h : Heap) (a b : Value)

theorem guarded_atom {r : Except Fault Value} (hr : AtomIn r) : AtomIn (guarded h a b r) :=
  .ite (ResultIn.ok_iff.mpr rfl) (by simp [hr])

theorem apply_atom (o : Operation) : AtomIn (o.apply h a b) := by
  refine guarded_atom h a b ?_
  cases common a b <;> simp [Operation.run, Value.isAtom]

theorem div_atom : AtomIn (div h a b) := by
  refine guarded_atom h a b (.ite (ResultIn.bind_iff.mpr fun (x, y) _ => ?_) (by simp [Value.isAtom]))
  dsimp only
  split
  · exact ResultIn.pure_iff.mpr rfl
  · exact .throw

theorem rem_atom : AtomIn (rem h a b) := by
  refine guarded_atom h a b ?_
  cases common a b with
  | word | big =>
    exact ResultIn.bind_iff.mpr fun (x, y) _ => .ite .throw (ResultIn.pure_iff.mpr rfl)
  | floating | decimal => simp [Value.isAtom]

theorem neg_atom (v : Value) : AtomIn (neg h v) := by
  unfold neg
  split
  case h_10 => exact .ite (by simp [Value.isAtom]) (by simp [Value.isAtom])
  all_goals exact ResultIn.ok_iff.mpr rfl

end Arithmetic

namespace Evaluation

theorem integerLiteral_atom (text : String) : AtomIn (integerLiteral text) := by
  unfold integerLiteral
  split
  · exact ResultIn.ok_iff.mpr rfl
  · split
    · exact ResultIn.ok_iff.mpr rfl
    · exact .error

theorem floatingLiteral_atom (text : String) : AtomIn (floatingLiteral text) := by
  unfold floatingLiteral
  split
  · exact .error
  · split
    · exact ResultIn.ok_iff.mpr rfl
    · exact .error
  · exact ResultIn.ok_iff.mpr rfl

theorem applyStrict_atom (h : Heap) (op : BinaryOp) (a b : Value) :
    AtomIn (applyStrict h op a b) := by
  cases op with
  | add | sub | mul => exact Arithmetic.apply_atom h a b _
  | div => exact Arithmetic.div_atom h a b
  | mod => exact Arithmetic.rem_atom h a b
  | eq | ne | lt | gt | le | ge => simp [applyStrict, Value.isAtom]
  | _ => exact ResultIn.ok_iff.mpr rfl

end Evaluation

end ExprLang
