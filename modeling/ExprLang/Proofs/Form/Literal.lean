import ExprLang.Form
import ExprLang.Proofs.Number.FloatText

/-! A value of the host reads back from its text and the name of its type. -/

namespace ExprLang

theorem Lineage.typeName_of_plain (l : Lineage) {t : TypeRef} (ht : t ∈ TypeRef.plain) :
    l.typeName t = t.plainName := by
  cases t with
  | array c => exact absurd ht (by simp [TypeRef.plain])
  | named c => exact absurd ht (by simp [TypeRef.plain])
  | _ => rfl

namespace Registry

theorem plainName_reads : ∀ t ∈ TypeRef.plain,
    splitBrackets t.plainName.toList.reverse = (0, t.plainName.toList.reverse) ∧
      trimBlanks (String.ofList t.plainName.toList.reverse.reverse) = t.plainName ∧
      TypeRef.plain.find? (·.plainName == t.plainName) = some t := by
  decide +kernel

/-- A type with a name of its own is found whatever classes are registered. -/
theorem resolveType_plain (r : Registry) (l : Lineage) {t : TypeRef} (ht : t ∈ TypeRef.plain) :
    r.resolveType l (l.typeName t) = some t := by
  obtain ⟨hbrackets, htrim, hfind⟩ := plainName_reads t ht
  unfold resolveType
  rw [l.typeName_of_plain ht, hbrackets]
  dsimp only
  rw [htrim, resolveSimpleType, hfind]
  rfl

end Registry

/-! ## Values that a text makes up -/

/-- Values that a text and a type make up, where the texts of decimals and of points in time are
read as they were written, and floating point numbers are stored as their formats store them. -/
inductive Value.Legible : Value → Prop
  | null : Legible .null
  | bool (b : Bool) : Legible (.bool b)
  | char (c : Char) : Legible (.char c)
  | byte (n : Int8) : Legible (.byte n)
  | short (n : Int16) : Legible (.short n)
  | int (n : Int32) : Legible (.int n)
  | long (n : Int64) : Legible (.long n)
  | bigInt (n : Int) : Legible (.bigInt n)
  | float {x : Single} (hx : x.Canonical) : Legible (.float x)
  | double {x : Double} (hx : x.Canonical) : Legible (.double x)
  | decimal {d : Decimal} (hd : Decimal.ofText d.toText = .ok d) : Legible (.decimal d)
  | text (s : String) : Legible (.text s)
  | instant {t : Instant} (ht : Instant.ofText? t.toText = some t) : Legible (.instant t)

namespace Form
variable (t : ClassTable) (r : Registry) (h : Heap)

/-- The content of the form of a value. -/
def contentOf (v : Value) : Option String := if v.isNull then none else some (h.display v)

theorem toLiteral_of_toType {v : Value} {s : String} {type : TypeRef}
    (hnull : v.isNull = false) (hs : h.display v = s) (htype : h.typeOf? v = some type)
    (hplain : type ∈ TypeRef.plain) (hl : h.lineage = t.lineage)
    (hread : Coercion.toType ⟨t.lineage, #[]⟩ type (.text s) = .ok v) :
    toLiteral t r (contentOf h v) ((h.typeOf? v).map h.lineage.typeName) = .ok v := by
  have hnamed : typeNamed t r (t.lineage.typeName type) = .ok type := by
    rw [typeNamed, Registry.resolveType_plain r t.lineage hplain]
  rw [contentOf, hnull, hs, htype, hl]
  show typeNamed t r (t.lineage.typeName type) >>=
    (fun type => Coercion.toType ⟨t.lineage, #[]⟩ type (.text s)) = .ok v
  rw [hnamed]
  exact hread

/-- A text that is read as a number is not the empty one. -/
theorem toTarget_text {α : Type} (h : Heap) {target : Coercion.Target α} {s : String} {a : α}
    (hempty : target.ofText? "" = none) (hs : target.ofText? s = some a) :
    Coercion.toTarget h target (.text s) = .ok a := by
  have hne : s.isEmpty = false := by
    rw [Bool.eq_false_iff, Ne, String.isEmpty_iff]
    rintro rfl
    rw [hempty] at hs
    cases hs
  simp [Coercion.toTarget, hne, hs]

/-- An integer of so many bits reads back from its text. -/
theorem ofWidth_map {α : Type} {bits : Nat} {ofInt : Int → α} {n : Int} {a : α}
    (hl : -2 ^ (bits - 1) ≤ n) (hh : n < 2 ^ (bits - 1)) (ha : ofInt n = a) :
    (IntegerText.ofWidth bits (toString n)).toOption.map ofInt = some a := by
  rw [IntegerText.ofWidth_toString hl hh, ← ha]
  rfl

/-- A value reads back from its text and the name of its type. -/
theorem toLiteral_display {v : Value} (hv : v.Legible) (hl : h.lineage = t.lineage) :
    toLiteral t r (contentOf h v) ((h.typeOf? v).map h.lineage.typeName) = .ok v := by
  cases hv with
  | null => rfl
  | bool b =>
    have hread : (Coercion.asciiLower (if b then "true" else "false") == "true") = b := by
      cases b <;> decide
    refine toLiteral_of_toType t r h (s := if b then "true" else "false") rfl rfl rfl (by decide)
      hl ?_
    exact congrArg (fun b => Except.ok (Value.bool b)) hread
  | char c =>
    refine toLiteral_of_toType t r h (s := c.toString) rfl rfl rfl (by decide) hl ?_
    exact congrArg (fun c => Except.ok (Value.char c)) (by simp)
  | byte n =>
    refine toLiteral_of_toType t r h (s := toString n.toInt) rfl rfl rfl (by decide) hl ?_
    exact congrArg (Value.byte <$> ·)
      (toTarget_text _ rfl (ofWidth_map n.le_toInt n.toInt_lt n.ofInt_toInt))
  | short n =>
    refine toLiteral_of_toType t r h (s := toString n.toInt) rfl rfl rfl (by decide) hl ?_
    exact congrArg (Value.short <$> ·)
      (toTarget_text _ rfl (ofWidth_map n.le_toInt n.toInt_lt n.ofInt_toInt))
  | int n =>
    refine toLiteral_of_toType t r h (s := toString n.toInt) rfl rfl rfl (by decide) hl ?_
    exact congrArg (Value.int <$> ·)
      (toTarget_text _ rfl (ofWidth_map n.le_toInt n.toInt_lt n.ofInt_toInt))
  | long n =>
    refine toLiteral_of_toType t r h (s := toString n.toInt) rfl rfl rfl (by decide) hl ?_
    exact congrArg (Value.long <$> ·)
      (toTarget_text _ rfl (ofWidth_map n.le_toInt n.toInt_lt n.ofInt_toInt))
  | bigInt n =>
    refine toLiteral_of_toType t r h (s := toString n) rfl rfl rfl (by decide) hl ?_
    have hread : Coercion.big.ofText? (toString n) = some n :=
      congrArg Except.toOption (IntegerText.unbounded_toString n)
    exact congrArg (Value.bigInt <$> ·) (toTarget_text _ rfl hread)
  | @float x hx =>
    refine toLiteral_of_toType t r h (s := x.toText) rfl rfl rfl (by decide) hl ?_
    have hread : Coercion.float.ofText? x.toText = some x :=
      congrArg Except.toOption (Binary.ofText_toText FloatFormat.narrow_single hx)
    exact congrArg (Value.float <$> ·) (toTarget_text _ rfl hread)
  | @double x hx =>
    refine toLiteral_of_toType t r h (s := x.toText) rfl rfl rfl (by decide) hl ?_
    have hread : Coercion.double.ofText? x.toText = some x :=
      congrArg Except.toOption (Binary.ofText_toText FloatFormat.narrow_double hx)
    exact congrArg (Value.double <$> ·) (toTarget_text _ rfl hread)
  | @decimal d hd =>
    refine toLiteral_of_toType t r h (s := d.toText) rfl rfl rfl (by decide) hl ?_
    have hread : Coercion.decimal.ofText? d.toText = some d := congrArg Except.toOption hd
    exact congrArg (Value.decimal <$> ·) (toTarget_text _ rfl hread)
  | text s =>
    exact toLiteral_of_toType t r h rfl rfl rfl (by decide) hl rfl
  | @instant i hi =>
    refine toLiteral_of_toType t r h (s := i.toText) rfl rfl rfl (by decide) hl ?_
    have hread : Coercion.toInstant ⟨t.lineage, #[]⟩ (.text i.toText) = .ok (some i) := by
      rw [Coercion.toInstant, hi]
    rw [Coercion.toType, hread]
    rfl

end Form

end ExprLang
