import ExprLang.Proofs.Number.Meant
import ExprLang.Value.Comparison

/-! Exact numbers: integers of every width, characters by their codes, and decimal numbers. In
whatever form they are brought together they keep the numbers that they stand for, and as such they
are compared. -/

namespace ExprLang

/-- The number that an exact value stands for. -/
def Value.exact? : Value → Option ℚ
  | .byte n => some n.toInt
  | .short n => some n.toInt
  | .int n => some n.toInt
  | .long n => some n.toInt
  | .char c => some c.toNat
  | .bigInt n => some n
  | .decimal d => some d.meant
  | _ => none

/-- The number that an operand stands for: null counts as zero. -/
def Value.amount? : Value → Option ℚ
  | .null => some 0
  | v => v.exact?

theorem Value.amount?_of_exact? {v : Value} {x : ℚ} (hv : v.exact? = some x) :
    v.amount? = some x := by
  cases v <;> first | exact hv | cases hv

namespace Coercion
open Comparison (isDecimal isBig)
variable {h : Heap} {v : Value} {x : ℚ}

/-! ## Conversions -/

/-- The code of a character fits 64 bits. -/
theorem bmod_code (c : Char) : (c.toNat : Int).bmod Int64.size = c.toNat := by
  have hcode : c.toNat < 2 ^ 32 := c.val.toNat_lt
  exact Int.bmod_eq_of_le (by simp only [Int64.size]; omega) (by simp only [Int64.size]; omega)

theorem toTarget_long_exact (hv : v.amount? = some x) (hd : isDecimal v = false)
    (hb : isBig v = false) : ∃ n, toTarget h long v = .ok n ∧ (n.toInt : ℚ) = x := by
  cases v with
  | null | byte | short | int | long | char =>
    cases hv
    exact ⟨_, rfl, by simp [long, Numeral.toWord, bmod_code]⟩
  | bigInt => cases hb
  | decimal => cases hd
  | _ => cases hv

theorem toTarget_big_exact (hv : v.amount? = some x) (hd : isDecimal v = false) :
    ∃ n, toTarget h big v = .ok n ∧ (n : ℚ) = x := by
  cases v with
  | null | byte | short | int | long | char | bigInt =>
    cases hv
    exact ⟨_, rfl, by simp [big, bmod_code]⟩
  | decimal => cases hd
  | _ => cases hv

theorem toTarget_decimal_exact (hv : v.amount? = some x) :
    ∃ d, toTarget h decimal v = .ok d ∧ d.meant = x := by
  cases v with
  | null | byte | short | int | long | char | bigInt =>
    cases hv
    exact ⟨_, rfl, by simp [decimal, Decimal.meant_ofInt, bmod_code]⟩
  | decimal d =>
    cases hv
    exact ⟨d, rfl, rfl⟩
  | _ => cases hv

end Coercion

namespace Comparison
variable {h : Heap} {a b c : Value} {x y z : ℚ}

/-! ## Order -/

/-- The scale of two exact values holds both of them. -/
theorem scale?_exact (ha : a.exact? = some x) (hb : b.exact? = some y) :
    scale? a b = some .decimal ∨
      isDecimal a = false ∧ isDecimal b = false ∧
        (scale? a b = some .big ∨ scale? a b = some .word ∧ isBig a = false ∧ isBig b = false) := by
  have hfloating {v : Value} {x : ℚ} (hv : v.exact? = some x) : isFloating v = false := by
    cases v <;> first | rfl | cases hv
  have hword {v : Value} {x : ℚ} (hv : v.exact? = some x) (hd : isDecimal v = false)
      (hb : isBig v = false) : isWord v = true := by
    cases v with
    | byte | short | int | long | char => rfl
    | bigInt => cases hb
    | decimal => cases hd
    | _ => cases hv
  unfold scale? either
  rw [hfloating ha, hfloating hb]
  cases hda : isDecimal a
  · cases hdb : isDecimal b
    · cases hba : isBig a
      · cases hbb : isBig b
        · simp [hword ha hda hba]
        · simp
      · simp
    · simp
  · simp

theorem compare_int64 (m n : Int64) : compare m n = cmp m.toInt n.toInt := by
  rcases lt_trichotomy m.toInt n.toInt with h | h | h
  · rw [Std.compare_eq_lt.mpr (Int64.lt_iff_toInt_lt.mpr h), (cmp_eq_lt_iff _ _).mpr h]
  · rw [Int64.toInt_inj.mp h, Std.compare_self, cmp_self_eq_eq]
  · rw [Std.compare_eq_gt.mpr (Int64.lt_iff_toInt_lt.mpr h), (cmp_eq_gt_iff _ _).mpr h]

/-- Where two exact values compare as numbers, nothing is lost. -/
theorem onScale_exact {s : Scale} (ha : a.exact? = some x) (hb : b.exact? = some y)
    (hs : scale? a b = some s) : onScale h s a b = .ok (some (cmp x y)) := by
  have ha' := Value.amount?_of_exact? ha
  have hb' := Value.amount?_of_exact? hb
  have hcast := Int.cast_strictMono (R := ℚ)
  obtain hscale | ⟨hda, hdb, hscale | ⟨hscale, hba, hbb⟩⟩ := scale?_exact ha hb
  all_goals
    obtain rfl := Option.some.inj (hscale.symm.trans hs)
    unfold onScale
  · obtain ⟨d, hd, rfl⟩ := Coercion.toTarget_decimal_exact (h := h) ha'
    obtain ⟨e, he, rfl⟩ := Coercion.toTarget_decimal_exact (h := h) hb'
    rw [hd, he, ← Decimal.compare_eq_cmp]
    rfl
  · obtain ⟨m, hm, rfl⟩ := Coercion.toTarget_big_exact (h := h) ha' hda
    obtain ⟨n, hn, rfl⟩ := Coercion.toTarget_big_exact (h := h) hb' hdb
    rw [hm, hn, hcast.cmp_map_eq, cmp_eq_compare]
    rfl
  · obtain ⟨m, hm, rfl⟩ := Coercion.toTarget_long_exact (h := h) ha' hda hba
    obtain ⟨n, hn, rfl⟩ := Coercion.toTarget_long_exact (h := h) hb' hdb hbb
    rw [hm, hn, hcast.cmp_map_eq, ← compare_int64]
    rfl

theorem scale?_of_exact (ha : a.exact? = some x) (hb : b.exact? = some y) :
    ∃ s, scale? a b = some s := by
  obtain hs | ⟨-, -, hs | ⟨hs, -⟩⟩ := scale?_exact ha hb <;> exact ⟨_, hs⟩

theorem isNull_exact (ha : a.exact? = some x) : a.isNull = false := by
  cases a <;> first | rfl | cases ha

/-- Exact values are ordered as the numbers that they stand for. -/
theorem order_exact (ha : a.exact? = some x) (hb : b.exact? = some y) :
    order h a b = .ok (cmp x y) := by
  obtain ⟨s, hs⟩ := scale?_of_exact ha hb
  unfold order
  rw [hs]
  dsimp only
  rw [onScale_exact ha hb hs]
  rfl

/-- Strictly equal exact values stand for one number. -/
theorem exact_of_equal (ha : a.exact? = some x) (hb : b.exact? = some y) (he : h.equal a b = true) :
    x = y := by
  cases a <;> cases ha <;> cases b <;> cases hb <;>
    simp_all [Heap.equal, Heap.equalAt, Decimal.equal_iff_meant]

theorem equals_exact (ha : a.exact? = some x) (hb : b.exact? = some y) :
    equals h a b = .ok (decide (x = y)) := by
  obtain ⟨s, hs⟩ := scale?_of_exact ha hb
  unfold equals
  rw [isNull_exact ha, isNull_exact hb, Bool.or_self, if_neg Bool.false_ne_true]
  split
  · next he => rw [decide_eq_true (exact_of_equal ha hb he)]
  · rw [hs]
    dsimp only
    rw [onScale_exact ha hb hs]
    have hsame : (some (cmp x y) == some .eq) = decide (x = y) := by
      rw [Bool.eq_iff_iff, beq_iff_eq, decide_eq_true_iff, Option.some.injEq, cmp_eq_eq_iff]
    exact congrArg Except.ok hsame

theorem strictly_exact (ha : a.exact? = some x) (hb : b.exact? = some y) (p : Ordering → Bool) :
    strictly h p a b = .ok (p (cmp x y)) := by
  rw [strictly, isNull_exact ha, isNull_exact hb, order_exact ha hb]
  rfl

theorem weakly_exact (ha : a.exact? = some x) (hb : b.exact? = some y) (p : Ordering → Bool) :
    weakly h p a b = .ok (p (cmp x y)) := by
  rw [weakly, isNull_exact ha, isNull_exact hb, order_exact ha hb]
  rfl

theorem less_exact (ha : a.exact? = some x) (hb : b.exact? = some y) :
    less h a b = .ok (decide (x < y)) := by
  rw [less, strictly_exact ha hb]
  congr 1
  rw [Bool.eq_iff_iff, beq_iff_eq, decide_eq_true_iff, cmp_eq_lt_iff]

theorem greater_exact (ha : a.exact? = some x) (hb : b.exact? = some y) :
    greater h a b = .ok (decide (y < x)) := by
  rw [greater, strictly_exact ha hb]
  congr 1
  rw [Bool.eq_iff_iff, beq_iff_eq, decide_eq_true_iff, cmp_eq_gt_iff]

theorem lessEqual_exact (ha : a.exact? = some x) (hb : b.exact? = some y) :
    lessEqual h a b = .ok (decide (x ≤ y)) := by
  rw [lessEqual, weakly_exact ha hb]
  congr 1
  rw [Bool.eq_iff_iff, bne_iff_ne, decide_eq_true_iff, Ne, cmp_eq_gt_iff, not_lt]

theorem greaterEqual_exact (ha : a.exact? = some x) (hb : b.exact? = some y) :
    greaterEqual h a b = .ok (decide (y ≤ x)) := by
  rw [greaterEqual, weakly_exact ha hb]
  congr 1
  rw [Bool.eq_iff_iff, bne_iff_ne, decide_eq_true_iff, Ne, cmp_eq_lt_iff, not_lt]

/-- The one does not come after the other. -/
def NotAfter (h : Heap) (a b : Value) : Prop := ∃ o, order h a b = .ok o ∧ o ≠ .gt

theorem notAfter_exact (ha : a.exact? = some x) (hb : b.exact? = some y) :
    NotAfter h a b ↔ x ≤ y := by
  rw [← not_lt, ← cmp_eq_gt_iff]
  constructor
  · rintro ⟨o, ho, hgt⟩
    cases (order_exact ha hb).symm.trans ho
    exact hgt
  · intro hgt
    exact ⟨_, order_exact ha hb, hgt⟩

/-- Exact values of any types compare as the numbers that they stand for: the order is that of the
numbers, `==` holds of equal ones, and each operator is the comparison of its name. So the order is
a total preorder across the types, and values of which neither comes after the other are the equal
ones. -/
theorem exact_values_ordered (h : Heap) {a b c : Value} {x y z : ℚ} (ha : a.exact? = some x)
    (hb : b.exact? = some y) (hc : c.exact? = some z) :
    (order h a b = .ok (cmp x y) ∧ equals h a b = .ok (decide (x = y)) ∧
      less h a b = .ok (decide (x < y)) ∧ greater h a b = .ok (decide (y < x)) ∧
      lessEqual h a b = .ok (decide (x ≤ y)) ∧ greaterEqual h a b = .ok (decide (y ≤ x))) ∧
    (NotAfter h a b ∨ NotAfter h b a) ∧ (NotAfter h a b → NotAfter h b c → NotAfter h a c) ∧
    (NotAfter h a b ∧ NotAfter h b a ↔ equals h a b = .ok true) := by
  rw [notAfter_exact ha hb, notAfter_exact hb ha, notAfter_exact hb hc, notAfter_exact ha hc]
  refine ⟨⟨order_exact ha hb, equals_exact ha hb, less_exact ha hb, greater_exact ha hb,
    lessEqual_exact ha hb, greaterEqual_exact ha hb⟩, le_total x y, le_trans, ?_⟩
  rw [equals_exact ha hb, ← le_antisymm_iff, Except.ok.injEq, decide_eq_true_iff]

/-- A decimal between the greatest integer of 64 bits and the next one. -/
theorem mixed_values_ordered :
    let h : Heap := ⟨⟨#[]⟩, #[]⟩
    let a : Value := .long Int64.maxValue
    let b : Value := .decimal ⟨92233720368547758075, 1⟩
    let c : Value := .bigInt 9223372036854775808
    less h a b = .ok true ∧ less h b c = .ok true ∧ NotAfter h a c := by
  intro h a b c
  have ha : a.exact? = some (9223372036854775807 : ℚ) := by
    simp only [a, Value.exact?, show Int64.maxValue.toInt = 9223372036854775807 from rfl]
    norm_num
  have hb : b.exact? = some (92233720368547758075 / 10 : ℚ) := by
    simp only [b, Value.exact?, Decimal.meant]
    norm_num
  have hc : c.exact? = some (9223372036854775808 : ℚ) := by
    simp only [c, Value.exact?]
    norm_num
  have hab := exact_values_ordered h ha hb hc
  have hbc := exact_values_ordered h hb hc ha
  have hless : less h a b = .ok true ∧ less h b c = .ok true := by
    refine ⟨hab.1.2.2.1.trans ?_, hbc.1.2.2.1.trans ?_⟩ <;> norm_num
  refine ⟨hless.1, hless.2, hab.2.2.1 ⟨_, hab.1.1, ?_⟩ ⟨_, hbc.1.1, ?_⟩⟩ <;>
    rw [Ne, cmp_eq_gt_iff] <;> norm_num

end Comparison

end ExprLang
