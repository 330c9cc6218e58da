import ExprLang.Action
import ExprLang.Builtin.Table

/-! Where sequences of computations end, and what computations leave as it was. -/

namespace ExprLang

/-- The world that an outcome leaves behind. -/
def Outcome.final? {α : Type} : Outcome α → Option World
  | value _ w => some w
  | fault _ w => some w
  | exhausted => none

namespace Action

variable {α β γ : Type} {x : Action α} {f : α → Action β} {w v : World} {e : Fault}

@[simp] theorem pure_apply (a : α) (w : World) : (pure a : Action α) w = .value a w := rfl

@[simp] theorem fail_apply (e : Fault) (w : World) : (fail e : Action α) w = .fault e w := rfl

@[simp] theorem heap_apply (w : World) : heap w = .value w.heap w := rfl

@[simp] theorem context_apply (w : World) : context w = .value w.context w := rfl

@[simp] theorem isResolved_apply (w : World) : isResolved w = .value w.context.resolved w := rfl

theorem bind_value {a : α} (h : x w = .value a v) : (x >>= f) w = f a v := by
  show Action.bind x f w = _
  simp only [Action.bind, h]

theorem bind_fault (h : x w = .fault e v) : (x >>= f) w = .fault e v := by
  show Action.bind x f w = _
  simp only [Action.bind, h]

theorem bind_exhausted (h : x w = .exhausted) : (x >>= f) w = .exhausted := by
  show Action.bind x f w = _
  simp only [Action.bind, h]

private theorem id_map_action (x : Action α) : id <$> x = x := by
  funext w
  show Action.bind x (fun a => Action.pure a) w = x w
  cases h : x w <;> simp [Action.bind, Action.pure, h]

private theorem bind_assoc_action {γ : Type} (x : Action α) (f : α → Action β)
    (g : β → Action γ) : x >>= f >>= g = x >>= fun a => f a >>= g := by
  funext w
  show Action.bind (Action.bind x f) g w = Action.bind x (fun a => Action.bind (f a) g) w
  cases h : x w <;> simp [Action.bind, h]

instance : LawfulMonad Action :=
  .mk' Action id_map_action (fun _ _ => rfl) bind_assoc_action

/-- A sequence ends in a value where both of its parts do. -/
theorem bind_eq_value {b : β} :
    (x >>= f) w = .value b v ↔ ∃ a u, x w = .value a u ∧ f a u = .value b v := by
  cases h : x w with
  | value a u =>
    rw [bind_value h]
    constructor
    · intro hf
      exact ⟨a, u, rfl, hf⟩
    · rintro ⟨_, _, he, hf⟩
      cases he
      exact hf
  | fault e u => simp [bind_fault h]
  | exhausted => simp [bind_exhausted h]

theorem final?_bind {u : World} (h : ((x >>= f) w).final? = some u) :
    (x w).final? = some u ∨ ∃ a v, x w = .value a v ∧ (f a v).final? = some u := by
  cases hx : x w with
  | value a v => exact .inr ⟨a, v, rfl, by rwa [bind_value hx] at h⟩
  | fault e v => exact .inl (by rwa [bind_fault hx] at h)
  | exhausted => rw [bind_exhausted hx] at h; cases h

/-! ## What stays as it was -/

/-- A computation leaves what `g` reads of the world as it was, also where it ends in a fault. -/
def Keeps (g : World → γ) (x : Action α) : Prop := ∀ w u, (x w).final? = some u → g u = g w

namespace Keeps

variable {g : World → γ}

theorem pure (a : α) : Keeps g (pure a : Action α) := by
  intro w u h
  cases h
  rfl

theorem fail (e : Fault) : Keeps g (fail e : Action α) := by
  intro w u h
  cases h
  rfl

theorem heap : Keeps g heap := by
  intro w u h
  cases h
  rfl

theorem context : Keeps g context := by
  intro w u h
  cases h
  rfl

theorem isResolved : Keeps g isResolved := by
  intro w u h
  cases h
  rfl

theorem ofExcept (r : Except Fault α) : Keeps g (ofExcept r) := by
  cases r with
  | ok a => exact pure a
  | error e => exact fail e

theorem bind (hx : Keeps g x) (hf : ∀ a, Keeps g (f a)) : Keeps g (x >>= f) := by
  intro w u h
  rcases final?_bind h with h | ⟨a, v, hv, h⟩
  · exact hx w u h
  · rw [hf a v u h]
    exact hx w v (by rw [hv]; rfl)

theorem map (k : α → β) (hx : Keeps g x) : Keeps g (k <$> x) := by
  rw [map_eq_pure_bind]
  exact hx.bind fun a => pure (k a)

theorem ite {c : Prop} [Decidable c] {y : Action α} (hx : Keeps g x) (hy : Keeps g y) :
    Keeps g (if c then x else y) := by
  split
  · exact hx
  · exact hy

theorem attempt (hx : Keeps g x) : Keeps g (attempt x) := by
  intro w u h
  apply hx w u
  rw [← h]
  cases hw : x w <;> simp [Action.attempt, hw, Outcome.final?]

end Keeps

end Action

/-! ## The least of hosts -/

/-- A host without classes and resolvers of its own. -/
def Host.bare : Host := ⟨.ofHost #[], fun _ _ q => pure q.neutral⟩

/-- A world of the standard chain in which nothing happened yet. -/
def World.fresh (host : Host) (imports : Imports) : World :=
  ⟨⟨host.classes.lineage, #[]⟩, { Context.standard false false with imports := imports }, []⟩

end ExprLang
