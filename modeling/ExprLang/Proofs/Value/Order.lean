import ExprLang.Value.Comparison
import Mathlib.Order.Compare

/-! The order of two values, asked from either side. -/

namespace ExprLang

/-! ## Numbers -/

namespace Binary
variable {f g : FloatFormat}

theorem compare?_swap (x y : Binary f) : y.compare? x = (x.compare? y).map Ordering.swap := by
  cases x <;> cases y
  case finite.finite s m d t n e =>
    have hleast : min e d = min d e := by omega
    simp only [compare?, hleast, Option.map_some, Int.compare_swap]
  case infinite.infinite s t => cases s <;> cases t <;> rfl
  case infinite.finite s _ _ _ => cases s <;> rfl
  case finite.infinite t => cases t <;> rfl
  all_goals rfl

theorem compare?_eq_none_iff (x y : Binary f) :
    x.compare? y = none ↔ x.isNaN = true ∨ y.isNaN = true := by
  cases x <;> cases y <;> simp [compare?, isNaN]

theorem isNaN_ofRatio (negative : Bool) (num den : Nat) :
    (ofRatio negative num den : Binary f).isNaN = false := by
  unfold ofRatio
  dsimp only
  split
  · rfl
  · split <;> split <;> rfl

theorem isNaN_convert (x : Binary f) : (x.convert : Binary g).isNaN = x.isNaN := by
  cases x with
  | finite s m e => exact isNaN_ofRatio _ _ _
  | nan | infinite => rfl

end Binary

namespace Decimal

/-- Numbers of one sign, none of them zero, by their magnitudes and then at one scale. -/
theorem compare_swap (a b : Decimal) : b.compare a = (a.compare b).swap := by
  have hsigns := Int.compare_swap a.digits.sign b.digits.sign
  unfold compare
  by_cases hs : a.digits.sign = b.digits.sign
  · have hzero : b.isZero = a.isZero := by
      have : b.digits = 0 ↔ a.digits = 0 := by
        rw [← Int.sign_eq_zero_iff_zero, ← hs, Int.sign_eq_zero_iff_zero]
      simp [isZero, this]
    have hneg : b.digits < 0 ↔ a.digits < 0 := by
      rw [← Int.sign_eq_neg_one_iff_neg, ← hs, Int.sign_eq_neg_one_iff_neg]
    by_cases ha : a.isZero = true
    · simp [hzero, ha, hsigns]
    · have hscale : max b.scale a.scale = max a.scale b.scale := by omega
      by_cases hm : a.magnitude = b.magnitude
      · simp [hzero, ha, hs, hm, hscale, Int.compare_swap]
      · have hm' : ¬b.magnitude = a.magnitude := fun h => hm h.symm
        by_cases hn : a.digits < 0 <;> simp [hzero, ha, hs, hm, hm', hneg, hn, Int.compare_swap]
  · have hs' : ¬b.digits.sign = a.digits.sign := fun h => hs h.symm
    simp [hs, hs', Int.compare_swap]

end Decimal

theorem Instant.compare_swap (a b : Instant) : b.compare a = (a.compare b).swap := by
  simp only [compare, Ordering.swap_then, Int.compare_swap, Nat.compare_swap]

/-! ## Values -/

namespace Comparison
variable {h : Heap} {a b v : Value} {o : Ordering}

/-- A text that reads as NaN. -/
def ReadsNaN (v : Value) : Prop := ∃ s, v = .text s ∧ Binary.ofText s = .ok (.nan : Double)

/-- A NaN in a text against a floating number that is none: both are compared as floating numbers,
and only as such is the text a NaN. -/
def HidesNaN (a b : Value) : Prop := ReadsNaN a ∧ isFloating b = true ∧ isNaN b = false

theorem either_comm (p : Value → Bool) (a b : Value) : either p b a = either p a b :=
  Bool.or_comm _ _

theorem scale?_comm (a b : Value) : scale? b a = scale? a b := by
  simp only [scale?, either_comm _ a b]

theorem scale?_eq_floating (hs : scale? a b = some .floating) :
    isDecimal a = false ∧ isDecimal b = false ∧ (isFloating a = true ∨ isFloating b = true) := by
  unfold scale? at hs
  split at hs
  · cases hs
  · next hd =>
    split at hs
    · next hf =>
      simp only [either, Bool.or_eq_true, not_or, Bool.not_eq_true] at hd hf
      exact ⟨hd.1, hd.2, hf⟩
    · split at hs
      · cases hs
      · split at hs <;> cases hs

theorem readsNaN_text (s : String) :
    ReadsNaN (.text s) ↔ Coercion.toTarget h Coercion.double (.text s) = .ok .nan := by
  have hread : ReadsNaN (.text s) ↔ Binary.ofText s = .ok (.nan : Double) := by
    simp [ReadsNaN]
  rw [hread]
  by_cases hs : s.isEmpty = true
  · simp [Coercion.toTarget, Coercion.double, hs, Binary.ofText, Binary.zero]
  · cases ht : (Binary.ofText s : Except Binary.TextFault Double) <;>
      simp [Coercion.toTarget, Coercion.double, hs, ht, Except.toOption]

/-- A number on the floating scale is NaN where the value is NaN or a text that reads so. -/
theorem isNaN_toTarget {x : Double} (hv : isDecimal v = false)
    (hx : Coercion.toTarget h Coercion.double v = .ok x) :
    x.isNaN = true ↔ isNaN v = true ∨ ReadsNaN v := by
  have hofInt (n : Int) : (.ofInt n : Double).isNaN = false := Binary.isNaN_ofRatio _ _ _
  cases v with
  | null =>
    cases hx
    simp [isNaN, ReadsNaN, Coercion.double, Binary.zero, Binary.isNaN]
  | byte | short | int | long | char | bigInt =>
    cases hx
    simp [isNaN, ReadsNaN, Numeral.toDouble, hofInt]
  | float y =>
    cases hx
    simp [isNaN, ReadsNaN, Numeral.toDouble, Binary.isNaN_convert]
  | double y =>
    cases hx
    simp [isNaN, ReadsNaN, Numeral.toDouble]
  | text s =>
    rw [readsNaN_text (h := h), hx]
    cases x <;> simp [isNaN, Binary.isNaN]
  | decimal => cases hv
  | _ => cases hx

/-- Where the numbers of two values do not compare, one of them is NaN, and unless that hides in a
text both sides find the same one. -/
theorem orderNaN_swap {x y : Double} (hs : scale? a b = some .floating)
    (hx : Coercion.toTarget h Coercion.double a = .ok x)
    (hy : Coercion.toTarget h Coercion.double b = .ok y) (hxy : x.compare? y = none)
    (hab : ¬HidesNaN a b) (hba : ¬HidesNaN b a) : orderNaN b a = (orderNaN a b).swap := by
  obtain ⟨hda, hdb, hf⟩ := scale?_eq_floating hs
  have hnan : isNaN a = true ∨ isNaN b = true := by
    by_contra hno
    simp only [not_or, Bool.not_eq_true] at hno
    have hreads : ReadsNaN a ∨ ReadsNaN b := by
      rcases (Binary.compare?_eq_none_iff x y).mp hxy with hn | hn
      · rw [isNaN_toTarget hda hx] at hn
        exact .inl (hn.resolve_left (by simp [hno.1]))
      · rw [isNaN_toTarget hdb hy] at hn
        exact .inr (hn.resolve_left (by simp [hno.2]))
    have htext {v : Value} (hv : ReadsNaN v) : isFloating v = false := by
      obtain ⟨s, rfl, _⟩ := hv
      rfl
    rcases hreads with hr | hr
    · exact hab ⟨hr, hf.resolve_left (by simp [htext hr]), hno.2⟩
    · exact hba ⟨hr, hf.resolve_right (by simp [htext hr]), hno.1⟩
  unfold orderNaN
  rcases hnan with hn | hn <;> rw [hn]
  · cases isNaN b <;> rfl
  · cases isNaN a <;> rfl

/-- Numbers of one target, compared in a way that has no sides. -/
theorem compared_swap {α : Type} {target : Coercion.Target α} {cmp : α → α → Option Ordering}
    (hcmp : ∀ x y, cmp y x = (cmp x y).map Ordering.swap)
    (hnone : ∀ x y, Coercion.toTarget h target a = .ok x → Coercion.toTarget h target b = .ok y →
      cmp x y = none → orderNaN b a = (orderNaN a b).swap)
    (ho : (·.getD (orderNaN a b)) <$> (do
      let x ← Coercion.toTarget h target a
      let y ← Coercion.toTarget h target b
      pure (cmp x y)) = .ok o) :
    (·.getD (orderNaN b a)) <$> (do
      let x ← Coercion.toTarget h target b
      let y ← Coercion.toTarget h target a
      pure (cmp x y)) = .ok o.swap := by
  cases hx : Coercion.toTarget h target a with
  | error e =>
    rw [hx] at ho
    cases ho
  | ok x =>
    cases hy : Coercion.toTarget h target b with
    | error e =>
      rw [hx, hy] at ho
      cases ho
    | ok y =>
      rw [hx, hy] at ho
      obtain rfl : (cmp x y).getD (orderNaN a b) = o := Except.ok.inj ho
      refine congrArg Except.ok ?_
      dsimp only
      rw [hcmp x y]
      cases hc : cmp x y with
      | none => exact hnone x y hx hy hc
      | some c => rfl

theorem onScale_swap {s : Scale} (hs : scale? a b = some s) (hab : ¬HidesNaN a b)
    (hba : ¬HidesNaN b a) (ho : (·.getD (orderNaN a b)) <$> onScale h s a b = .ok o) :
    (·.getD (orderNaN b a)) <$> onScale h s b a = .ok o.swap := by
  cases s with
  | decimal =>
    exact compared_swap (fun x y => by simp [Decimal.compare_swap x y]) (fun _ _ _ _ => nofun) ho
  | floating =>
    exact compared_swap Binary.compare?_swap
      (fun x y hx hy hxy => orderNaN_swap hs hx hy hxy hab hba) ho
  | big =>
    exact compared_swap (fun x y => by simp [Int.compare_swap x y]) (fun _ _ _ _ => nofun) ho
  | word =>
    exact compared_swap (fun x y => congrArg some Std.OrientedCmp.eq_swap)
      (fun _ _ _ _ => nofun) ho

/-- The place of an object against another object, asked from either of them. -/
theorem compare?_object (x y : Address) :
    ((h.object? y).bind fun p => p.compare? h (.object x)) =
      ((h.object? x).bind fun p => p.compare? h (.object y)).map Ordering.swap := by
  cases hx : h.object? x with
  | none => cases hy : h.object? y <;> simp [HostObject.compare?, hx]
  | some p =>
    cases hy : h.object? y with
    | none => simp [HostObject.compare?, hy]
    | some q =>
      cases hp : p.order <;> cases hq : q.order <;>
        simp [HostObject.compare?, hx, hy, hp, hq, Int.compare_swap]

theorem objectOrder?_swap (a b : Value) :
    objectOrder? h b a = (objectOrder? h a b).map Ordering.swap := by
  cases a with
  | object x =>
    cases b with
    | object y =>
      simp only [objectOrder?, compare?_object x y]
      cases (h.object? x).bind fun p => p.compare? h (.object y) <;> simp
    | _ => simp [objectOrder?]
  | _ =>
    cases b with
    | object y =>
      simp only [objectOrder?, Option.none_or, Option.map_none, Option.or_none, Option.map_map]
      cases (h.object? y).bind _ <;> simp
    | _ => rfl

theorem order_swap (hab : ¬HidesNaN a b) (hba : ¬HidesNaN b a) (ho : order h a b = .ok o) :
    order h b a = .ok o.swap := by
  unfold order at ho ⊢
  rw [scale?_comm a b]
  cases hs : scale? a b with
  | some s =>
    rw [hs] at ho
    exact onScale_swap hs hab hba ho
  | none =>
    simp only [hs] at ho ⊢
    rw [either_comm isInstant a b, either_comm isText a b]
    by_cases hi : either isInstant a b = true
    · rw [if_pos hi] at ho ⊢
      cases hx : Coercion.toInstant h a <;> cases hy : Coercion.toInstant h b <;>
        rw [hx, hy] at ho <;> try cases ho
      next x y =>
        cases x <;> cases y <;> cases ho
        next x y => exact congrArg Except.ok (Instant.compare_swap x y)
    · rw [if_neg hi] at ho ⊢
      by_cases ht : either isText a b = true
      · rw [if_pos ht] at ho ⊢
        obtain rfl := Except.ok.inj ho
        exact congrArg Except.ok (show compare _ _ = (compare _ _).swap from Std.OrientedCmp.eq_swap)
      · rw [if_neg ht] at ho ⊢
        split at ho
        · cases ho
          exact congrArg Except.ok (Nat.compare_swap _ _).symm
        · next hno =>
          split at ho
          · next p hp =>
            cases ho
            split
            · exact absurd rfl (hno _ _ rfl)
            · rw [objectOrder?_swap, hp]
              rfl
          · cases ho

/-- Where a NaN hides, each of the operands is less than the other. -/
theorem order_of_hidesNaN (hab : HidesNaN a b) :
    order h a b = .ok .lt ∧ order h b a = .ok .lt := by
  obtain ⟨⟨s, rfl, hread⟩, hf, hn⟩ := hab
  have hnan : Coercion.toTarget h Coercion.double (.text s) = .ok .nan :=
    (readsNaN_text s).mp ⟨s, rfl, hread⟩
  obtain ⟨y, hy⟩ : ∃ y, Coercion.toTarget h Coercion.double b = .ok y := by
    cases b <;> first | exact ⟨_, rfl⟩ | cases hf
  have hs : scale? (.text s) b = some .floating := by
    cases b <;> first | rfl | cases hf
  have hcompare : (.nan : Double).compare? y = none ∧ y.compare? .nan = none := by
    cases y <;> exact ⟨rfl, rfl⟩
  constructor
  · simp only [order, hs, onScale, hnan, hy]
    exact congrArg (fun c : Option Ordering => Except.ok (c.getD .lt)) hcompare.1
  · simp only [order, (scale?_comm _ _).trans hs, onScale, hnan, hy, orderNaN, hn]
    exact congrArg (fun c : Option Ordering => Except.ok (c.getD .lt)) hcompare.2

theorem order_swap_iff (hab : ¬HidesNaN a b) (hba : ¬HidesNaN b a) :
    order h a b = .ok o ↔ order h b a = .ok o.swap :=
  ⟨order_swap hab hba, fun ho => by simpa using order_swap hba hab ho⟩

/-! ## Operators -/

theorem map_order_swap {p q : Ordering → Bool} (hpq : ∀ o, q o.swap = p o) (hab : ¬HidesNaN a b)
    (hba : ¬HidesNaN b a) (r : Bool) : p <$> order h a b = .ok r ↔ q <$> order h b a = .ok r := by
  cases ho : order h a b with
  | ok o =>
    rw [(order_swap_iff hab hba).mp ho]
    simp [hpq]
  | error e =>
    cases hs : order h b a with
    | ok o =>
      rw [order_swap hba hab hs] at ho
      cases ho
    | error d => simp

theorem strictly_swap {p q : Ordering → Bool} (hpq : ∀ o, q o.swap = p o) (hab : ¬HidesNaN a b)
    (hba : ¬HidesNaN b a) (r : Bool) : strictly h p a b = .ok r ↔ strictly h q b a = .ok r := by
  unfold strictly
  rw [Bool.or_comm b.isNull]
  split
  · rfl
  · exact map_order_swap hpq hab hba r

theorem weakly_swap {p q : Ordering → Bool} (hpq : ∀ o, q o.swap = p o) (hab : ¬HidesNaN a b)
    (hba : ¬HidesNaN b a) (r : Bool) : weakly h p a b = .ok r ↔ weakly h q b a = .ok r := by
  unfold weakly
  rw [Bool.or_comm b.isNull, Bool.and_comm b.isNull]
  split
  · rfl
  · exact map_order_swap hpq hab hba r

theorem order_of_less (hl : less h a b = .ok true) : order h a b = .ok .lt := by
  unfold less strictly at hl
  split at hl
  · cases hl
  · cases ho : order h a b with
    | error e => rw [ho] at hl; cases hl
    | ok o =>
      rw [ho] at hl
      cases o <;> first | rfl | cases hl

theorem less_of_hidesNaN (hab : HidesNaN a b) : less h a b = .ok true ∧ less h b a = .ok true := by
  have hnull : a.isNull = false ∧ b.isNull = false := by
    obtain ⟨⟨s, rfl, _⟩, hf, _⟩ := hab
    refine ⟨rfl, ?_⟩
    cases b <;> first | rfl | cases hf
  obtain ⟨ho, hs⟩ := order_of_hidesNaN (h := h) hab
  simp [less, strictly, hnull, ho, hs]

theorem readsNaN_nan : ReadsNaN (.text "NaN") := ⟨_, rfl, by decide⟩

end Comparison

end ExprLang
