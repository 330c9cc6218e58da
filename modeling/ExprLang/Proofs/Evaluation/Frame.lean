import ExprLang.Proofs.Evaluation.Discipline

/-! What no evaluation changes for good. A part of the world that is apart from the values, the events
and the flag of claims, and that each scope gives back, is the same after every task as before it. -/

namespace ExprLang

open ExprLang.Action (Keeps)

variable {γ α : Type} {g : World → γ} {host : Host}

/-- The world with one more scope of arguments. -/
def World.pushed (w : World) (scope : Bindings Value) : World :=
  { w with context := { w.context with scopes := scope :: w.context.scopes } }

/-- The world without its innermost scope. -/
def World.popped (w : World) : World :=
  { w with context := { w.context with scopes := w.context.scopes.tail } }

/-- An outcome in another world. -/
def Outcome.after (f : World → World) : Outcome α → Outcome α
  | .value a w => .value a (f w)
  | .fault e w => .fault e (f w)
  | .exhausted => .exhausted

theorem Outcome.final?_after (f : World → World) (o : Outcome α) :
    (o.after f).final? = o.final?.map f := by
  cases o <;> rfl

theorem withScope_apply (s : Bindings Value) (x : Action α) (w : World) :
    withScope s x w = (x (w.pushed s)).after World.popped := by
  show Action.bind _ _ _ = _
  cases hw : x (w.pushed s) <;> simp only [World.pushed] at hw <;>
    simp only [Action.bind, Action.attempt, hw] <;> rfl

/-- What `g` reads is apart from values, events and claims, and a scope gives it back. -/
structure Apart (g : World → γ) : Prop where
  cells (w : World) (cs : Array Cell) : g { w with heap := { w.heap with cells := cs } } = g w
  claim (w : World) (b : Bool) :
    g { w with context := { w.context with resolved := b } } = g w
  store (w : World) (i : Nat) (b : Bindings Value) :
    g { w with context := w.context.setStore i b } = g w
  event (w : World) (e : Event) : g { w with log := e :: w.log } = g w
  scope (w u : World) (s : Bindings Value) : g u = g (w.pushed s) → g u.popped = g w

/-- The resolvers of the host leave what `g` reads as it was. -/
def Host.Keeps (g : World → γ) (host : Host) : Prop :=
  ∀ {α : Type} (i : Nat) (q : Request α), Action.Keeps g (host.custom i q)

/-- What is apart and kept by the resolvers of the host is kept by all parts of computations. -/
theorem Apart.discipline (hg : Apart g) (hr : host.Keeps g) :
    Discipline host (fun _ => True) (Keeps g) where
  pure := .pure
  fail := .fail
  exhausted := nofun
  bind hx hf := .bind hx hf
  attempt hx := .attempt hx
  heap := .heap
  isResolved := .isResolved
  context _ hf := .bind .context fun c => hf c trivial
  setResolved b w u h := by
    cases h
    exact hg.claim w b
  setCells h w u hu := by
    cases hu
    exact hg.cells w h.cells
  setStore i f w u h := by
    cases h
    exact hg.store w _ _
  notify e w u h := by
    have hu : u = { w with log := e :: w.log } := by
      simp only [Action.notify] at h
      split at h <;> cases h <;> rfl
    rw [hu]
    exact hg.event w e
  withScope s hx w u h := by
    -- A scope is pushed and popped around the computation, so what it keeps stays the same.
    rw [withScope_apply, Outcome.final?_after, Option.map_eq_some_iff] at h
    obtain ⟨v, hv, rfl⟩ := h
    exact hg.scope w v s (hx _ v hv)
  resolvers l _ := allAdmit_of_forall (fun i _ q => hr i q) l.resolvers

/-- Every run keeps what its parts keep. -/
theorem Evaluation.run_keeps (hg : Apart g) (hr : host.Keeps g) (depth : Nat) {α : Type}
    (t : Task α) : Keeps g (run host depth t) :=
  run_obeys (hg.discipline hr) depth t

/-! ## The stack of lambda scopes

Every scope is pushed and popped around the body it is for, and nothing else touches the stack. -/

def World.scopes (w : World) : List (Bindings Value) := w.context.scopes

theorem scopes_apart : Apart World.scopes where
  cells _ _ := rfl
  claim _ _ := rfl
  store _ _ _ := rfl
  event _ _ := rfl
  scope w u s h := by
    show u.context.scopes.tail = w.context.scopes
    rw [show u.context.scopes = s :: w.context.scopes from h]
    rfl

namespace Evaluation

variable {depth : Nat}

/-- A lambda runs its body with its own scope on top of the stack. The body ends, be it in a value or
in a fault, with that scope on top of the stack it found, and the call takes the scope off. -/
theorem closure_scope (hr : host.Keeps World.scopes) (f : Closure) (args : List Value) (w : World) :
    let body := run host depth (.eval f.bound f.body) (w.pushed (f.scope args))
    f.invoke (run host depth) args w = body.after World.popped ∧
      ∀ u, body.final? = some u →
        u.scopes = f.scope args :: w.scopes ∧ u.popped.scopes = w.scopes := by
  refine ⟨withScope_apply _ _ w, fun u hu => ?_⟩
  have h : u.scopes = f.scope args :: w.scopes :=
    run_keeps scopes_apart hr depth _ _ u hu
  refine ⟨h, ?_⟩
  show u.scopes.tail = w.scopes
  rw [h]
  rfl

/-- Whatever the task and however it ends, the stack of scopes is what it was before, and so it is
around every call of a lambda on the way. -/
theorem scopes_restored (hr : host.Keeps World.scopes) {α : Type} (t : Task α) (w : World) :
    (∀ u, (run host depth t w).final? = some u → u.scopes = w.scopes) ∧
      ∀ (n : Nat) (f : Closure) (args : List Value) (w : World),
        let body := run host n (.eval f.bound f.body) (w.pushed (f.scope args))
        f.invoke (run host n) args w = body.after World.popped ∧
          ∀ u, body.final? = some u →
            u.scopes = f.scope args :: w.scopes ∧ u.popped.scopes = w.scopes :=
  ⟨fun u hu => run_keeps scopes_apart hr depth t w u hu, fun _ f args w => closure_scope hr f args w⟩

/-- A lambda that is called at once. -/
theorem called_lambda_restores : ∃ u,
    (run Host.bare 3 (.eval .empty (.lambda ["x"] (.name "x") [[.boolean true]]))
      (World.fresh Host.bare .none)).final? = some u ∧ u.scopes = [] := by
  have hr : Host.bare.Keeps World.scopes := fun _ _ => .pure _
  obtain ⟨u, hu⟩ : ∃ u,
      (run Host.bare 3 (.eval .empty (.lambda ["x"] (.name "x") [[.boolean true]]))
        (World.fresh Host.bare .none)).final? = some u := ⟨_, rfl⟩
  exact ⟨u, hu, (scopes_restored hr _ _).1 u hu⟩

end Evaluation

end ExprLang

/-! ## Runs to different depths

Runs to different depths. A run that ends does the same where it may nest more deeply. -/

namespace ExprLang.Evaluation

variable {host : Host}

/-- One computation ends like the other, unless that one nests too deeply. -/
def Extends {α : Type} (x y : Action α) : Prop := ∀ w, x w ≠ .exhausted → y w = x w

theorem extends_discipline (host : Host) : Lockstep.Discipline host (fun _ => True) Extends where
  pure _ _ _ := rfl
  fail _ _ _ := rfl
  bind {α β x y f g} hx hfg w h := by
    cases hw : x w with
    | value a u =>
      rw [Action.bind_value hw] at h ⊢
      rw [Action.bind_value ((hx w (by rw [hw]; nofun)).trans hw)]
      exact hfg a u h
    | fault e u =>
      rw [Action.bind_fault hw, Action.bind_fault ((hx w (by rw [hw]; nofun)).trans hw)]
    | exhausted => exact absurd (Action.bind_exhausted hw) h
  heap _ _ := rfl
  isResolved _ _ := rfl
  context _ _ h w := h w.context trivial w
  setResolved _ _ _ := rfl
  setCells _ _ _ := rfl
  setStore _ _ _ _ := rfl
  resolvers l _ := allAdmit_of_forall (fun _ _ _ _ _ => rfl) l.resolvers
  attempt {α x y} hx w h := by
    have hfinished : x w ≠ .exhausted := by
      intro hw
      refine h ?_
      simp only [Action.attempt, hw]
    simp only [Action.attempt, hx w hfinished]
  notify _ _ _ := rfl
  withScope {α x y} s hx w h := by
    rw [withScope_apply] at h ⊢
    rw [withScope_apply, hx _ fun hw => h (by rw [hw]; rfl)]

section Handlers
variable {handle handle' : Handler} (h : ∀ {α : Type} (t : Task α), Extends (handle t) (handle' t))
include h

/-- So does all code that leaves its tasks to the one handler or to the other. -/
theorem extends_programmed :
    Lockstep.Programmed host handle handle' (fun _ => True) Extends :=
  (Lockstep.Disciplined.mk (extends_discipline host) h).programmed

/-- A step ends like the other one where the tasks inside do. -/
theorem step_extends {α : Type} (t : Task α) : Extends (step host handle t) (step host handle' t) := by
  obtain ⟨f, g, hf, hg, hfg⟩ := step_related (extends_programmed h) t
  rw [hf, hg]
  exact fun w => hfg _ w

end Handlers

theorem run_succ_extends (depth : Nat) {α : Type} (t : Task α) :
    Extends (run host depth t) (run host (depth + 1) t) := by
  induction depth generalizing α with
  | zero => exact fun w h => absurd rfl h
  | succ depth ih => exact step_extends ih t

/-- A run that ends does the same where it may nest more deeply. -/
theorem run_extends {depth deeper : Nat} (h : depth ≤ deeper) {α : Type} (t : Task α) :
    Extends (run host depth t) (run host deeper t) := by
  induction deeper, h using Nat.le_induction with
  | base => exact fun _ _ => rfl
  | succ deeper _ ih =>
    intro w hw
    have hend := ih w hw
    rw [run_succ_extends deeper t w (by rwa [hend]), hend]

end ExprLang.Evaluation
