import ExprLang.Overload
import ExprLang.Proofs.Lineage.Subclassing
import Mathlib.Data.List.Forall2

/-! Types of which each can be stored where the other is declared are the same but for boxing, and so are
parameters of which each is as specific as the other. -/

namespace ExprLang

/-! ## Types -/

theorem Primitive.widens_irrefl (p : Primitive) : p.widens p = false := by
  cases p <;> rfl

theorem Primitive.widens_asymm {p q : Primitive} (h : p.widens q = true) : q.widens p = false := by
  cases p <;> cases q <;> first | rfl | cases h

namespace TypeRef

/-- The primitive type of a boxed one; any other type is left as it is. -/
def unboxed : TypeRef → TypeRef
  | boxed p => primitive p
  | t => t

/-- Types that take others in rank above them: objects, numbers, all that is builtin, classes. -/
def breadth : TypeRef → Nat
  | object => 3
  | number => 2
  | named _ => 0
  | _ => 1

theorem kind?_eq_some {t : TypeRef} {p : Primitive} (h : t.kind? = some p) :
    t = primitive p ∨ t = boxed p := by
  cases t <;> cases h
  · exact .inl rfl
  · exact .inr rfl

theorem widensTo_iff {t s : TypeRef} :
    t.widensTo s = true ↔ ∃ p q, t.kind? = some p ∧ s.kind? = some q ∧ p.widens q = true := by
  unfold widensTo
  cases t.kind? <;> cases s.kind? <;> simp

theorem eq_of_unboxed {t s : TypeRef} (ht : t.isPrimitive = false) (hs : s.isPrimitive = false)
    (h : t.unboxed = s.unboxed) : t = s := by
  cases t <;> cases s <;> simp_all [unboxed, isPrimitive]

end TypeRef

namespace Lineage
variable {l : Lineage} {t s : TypeRef}

/-- What is stored as another type is the same but for boxing, an object of a subclass, or of a
narrower type. -/
theorem accepts_cases (h : l.accepts t s = true) :
    t.unboxed = s.unboxed ∨ (∃ c d, t = .named d ∧ s = .named c ∧ l.isSubclass c d = true) ∨
      s.breadth < t.breadth := by
  unfold accepts at h
  rw [Bool.or_eq_true, beq_iff_eq, Bool.and_eq_true] at h
  rcases h with rfl | ⟨-, h⟩
  · exact .inl rfl
  · cases s with
    | primitive p =>
      obtain rfl := eq_of_beq h
      exact .inl rfl
    | boxed p =>
      simp only [Bool.or_eq_true, Bool.and_eq_true, beq_iff_eq] at h
      rcases h with (rfl | rfl) | ⟨rfl, -⟩
      · exact .inr (.inr (by simp [TypeRef.breadth]))
      · exact .inl rfl
      · exact .inr (.inr (by simp [TypeRef.breadth]))
    | named c =>
      cases t with
      | named d => exact .inr (.inl ⟨c, d, rfl, rfl, h⟩)
      | _ => exact .inr (.inr (Nat.zero_lt_succ _))
    | _ =>
      simp only [Bool.or_eq_true, Bool.and_eq_true, beq_iff_eq] at h
      rcases h with rfl | ⟨rfl, hnumeric⟩
      all_goals
        first
        | exact .inl rfl
        | cases hnumeric; done
        | exact .inr (.inr (by simp [TypeRef.breadth]))

/-- Types of which each is stored where the other is declared are the same but for boxing. -/
theorem assignable_both (hts : l.assignable t s = true) (hst : l.assignable s t = true) :
    t.unboxed = s.unboxed := by
  induction t, s using assignable.induct with
  | case1 a b ih =>
    rw [assignable, Bool.or_eq_true, beq_iff_eq, Bool.and_eq_true, Bool.not_eq_true'] at hts hst
    rcases hts with rfl | ⟨hb, hab⟩
    · rfl
    · rcases hst with rfl | ⟨ha, hba⟩
      · rfl
      · rw [TypeRef.eq_of_unboxed ha hb (ih hab hba)]
  | case2 t s hne =>
    rw [assignable.eq_2 l t s hne] at hts
    rw [assignable.eq_2 l s t fun a b hs ht => hne b a ht hs] at hst
    rcases accepts_cases hts with heq | ⟨c, d, rfl, rfl, hcd⟩ | hlt
    · exact heq
    · rcases accepts_cases hst with heq | ⟨_, _, ⟨⟩, ⟨⟩, hdc⟩ | hlt
      · exact heq.symm
      · rw [isSubclass_antisymm hcd hdc]
      · exact absurd hlt (Nat.lt_irrefl 0)
    · rcases accepts_cases hst with heq | ⟨c, d, rfl, rfl, -⟩ | hgt
      · exact heq.symm
      · exact absurd hlt (Nat.lt_irrefl 0)
      · omega

/-- Types that are the same but for boxing can be stored as each other. -/
theorem assignable_of_unboxed (h : t.unboxed = s.unboxed) : l.assignable t s = true := by
  by_cases heq : t = s
  · subst heq
    cases t <;> simp [assignable, accepts]
  · cases t <;> cases s <;> cases h <;> first | exact absurd rfl heq | simp [assignable, accepts]

/-- A type does not widen to one that is stored where it is declared itself. -/
theorem not_widens_of_assignable (h : l.assignable t s = true) : ¬t.widensTo s = true := by
  rw [TypeRef.widensTo_iff]
  rintro ⟨p, q, hp, hq, hpq⟩
  obtain rfl : p = q := by
    rcases TypeRef.kind?_eq_some hp with rfl | rfl <;>
      rcases TypeRef.kind?_eq_some hq with rfl | rfl <;>
      simp_all [assignable, accepts]
  rw [p.widens_irrefl] at hpq
  cases hpq

end Lineage

/-! ## Parameters -/

namespace Overload
variable {l : Lineage} {p q : TypeRef} {ps qs : List TypeRef}

/-- A parameter is as specific as another one. -/
def AsSpecific (l : Lineage) (p q : TypeRef) : Prop :=
  l.assignable q p = true ∨ p.widensTo q = true

theorem asSpecific_of_unboxed (h : p.unboxed = q.unboxed) : AsSpecific l p q :=
  .inl (Lineage.assignable_of_unboxed h.symm)

theorem unboxed_of_asSpecific (hpq : AsSpecific l p q) (hqp : AsSpecific l q p) :
    p.unboxed = q.unboxed := by
  rcases hpq with hstored | hwidens
  · rcases hqp with hback | hback
    · exact Lineage.assignable_both hback hstored
    · exact absurd hback (Lineage.not_widens_of_assignable hstored)
  · rcases hqp with hback | hback
    · exact absurd hwidens (Lineage.not_widens_of_assignable hback)
    · obtain ⟨k, k', hk, hk', hkk'⟩ := TypeRef.widensTo_iff.mp hwidens
      obtain ⟨_, _, hq, hp, hback⟩ := TypeRef.widensTo_iff.mp hback
      cases hk.symm.trans hp
      cases hk'.symm.trans hq
      rw [Primitive.widens_asymm hkk'] at hback
      cases hback

theorem moreSpecific_iff : moreSpecific l ps qs = true ↔ List.Forall₂ (AsSpecific l) ps qs := by
  have hone (p q : TypeRef) : (p == q || l.assignable q p || p.widensTo q) = true ↔
      AsSpecific l p q := by
    rw [Bool.or_eq_true, Bool.or_eq_true, beq_iff_eq, or_assoc]
    refine ⟨fun h => ?_, .inr⟩
    rcases h with rfl | h
    · exact asSpecific_of_unboxed rfl
    · exact h
  induction ps generalizing qs with
  | nil => cases qs <;> simp [moreSpecific]
  | cons p ps ih =>
    cases qs with
    | nil => simp [moreSpecific]
    | cons q qs =>
      rw [moreSpecific, Bool.and_eq_true, hone, List.forall₂_cons]
      exact and_congr_right fun _ => ih

/-- Each of two lists of parameters is as specific as the other exactly where they are the same but
for boxing. -/
theorem moreSpecific_both_iff :
    moreSpecific l ps qs = true ∧ moreSpecific l qs ps = true ↔
      ps.map TypeRef.unboxed = qs.map TypeRef.unboxed := by
  rw [moreSpecific_iff, moreSpecific_iff]
  constructor
  · rintro ⟨hpq, hqp⟩
    induction hpq with
    | nil => rfl
    | cons hp _ ih =>
      rw [List.forall₂_cons] at hqp
      rw [List.map_cons, List.map_cons, unboxed_of_asSpecific hp hqp.1, ih hqp.2]
  · intro h
    have hall : List.Forall₂ (fun p q => p.unboxed = q.unboxed) ps qs := by
      rwa [← List.forall₂_map_right_iff, ← List.forall₂_map_left_iff, List.forall₂_eq_eq_eq]
    exact ⟨hall.imp fun _ _ => asSpecific_of_unboxed,
      hall.flip.imp fun _ _ h => asSpecific_of_unboxed h.symm⟩

end Overload

end ExprLang
