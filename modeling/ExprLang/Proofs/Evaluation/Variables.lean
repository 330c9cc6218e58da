import ExprLang.Proofs.Evaluation.Frame
import ExprLang.Proofs.Evaluation.Steady

/-! What a variable stands for. A name that is a variable of the expression is used by using the expression
that is bound to it, in the context that the name is used in. The parameters of the lambdas around hide
names in that expression too. They make no difference to an evaluation that sees nothing of them: it looks
up no name that only they bind, and makes no lambda, which would take all arguments in sight with it. -/

namespace ExprLang

variable {α β : Type}

/-! ## Scopes that are not seen -/

/-- The world with more scopes below the others. -/
def World.under (w : World) (s : Stack) : World := w.onStack (w.context.scopes ++ s)

namespace Sight

/-- Nothing of the scopes `s` is seen from above them. -/
def clearOf (s : Stack) (c : Context) : Sight → Bool
  | nothing => true
  | argument name => c.isArgument name || s.all fun scope => !scope.contains name
  | everything => s.all (·.isEmpty)

theorem argument?_append (scopes s : Stack) (name : String) :
    Stack.argument? (scopes ++ s) name = (Stack.argument? scopes name).or (s.argument? name) := by
  unfold Stack.argument?
  rw [List.findSome?_append]

theorem arguments_of_isEmpty {s : Stack} (h : s.all (·.isEmpty) = true) : s.arguments = [] := by
  induction s with
  | nil => rfl
  | cons scope outer ih =>
    rw [List.all_cons, Bool.and_eq_true, List.isEmpty_iff] at h
    obtain ⟨rfl, houter⟩ := h
    exact ih houter

/-- What is clear of the scopes below is seen as it is without them. -/
theorem of_under {w : World} {s : Stack} {sight : Sight}
    (h : sight.clearOf s w.context = true) : sight.of (w.under s).context = sight.of w.context := by
  cases sight with
  | nothing => rfl
  | argument name =>
    have hsame : (w.under s).context.argument? name = w.context.argument? name := by
      show Stack.argument? (w.context.scopes ++ s) name = Stack.argument? w.context.scopes name
      rw [argument?_append]
      rw [clearOf, Bool.or_eq_true, Context.isArgument_eq] at h
      rcases h with h | h
      · obtain ⟨v, hv⟩ := Option.isSome_iff_exists.mp h
        show (w.context.argument? name).or _ = w.context.argument? name
        rw [hv]
        rfl
      · have hnone : s.argument? name = none := by
          refine List.findSome?_eq_none_iff.mpr fun scope hscope => ?_
          have hfree := List.all_eq_true.mp h scope hscope
          simpa [Bindings.contains] using hfree
        rw [hnone, Option.or_none]
    simp only [Sight.of, hsame]
  | everything =>
    show Stack.arguments (w.context.scopes ++ s) = Stack.arguments w.context.scopes
    rw [Stack.arguments, List.foldr_append]
    exact congrArg (fun outer => List.foldr _ outer w.context.scopes) (arguments_of_isEmpty h)

end Sight

namespace Evaluation

/-- Carries out tasks as long as they see nothing of the scopes `s` below. -/
def secluded (host : Host) (s : Stack) : Nat → Handler
  | 0, _, _ => Action.exhausted
  | depth + 1, _, task => fun w =>
    if (task.sight host.classes).clearOf s w.context then step host (secluded host s depth) task w
    else .exhausted

end Evaluation

/-! ## Side by side -/

/-- Where the first computation ends, the second one does the same above the scopes `s`. -/
def Action.Above (L : Layout → Prop) (s : Stack) {α : Type} (x y : Action α) : Prop :=
  ∀ w : World, L w.context.layout → x w ≠ .exhausted →
    y (w.under s) = (x w).after (·.under s) ∧
      ∀ u, (x w).final? = some u →
        u.context.layout = w.context.layout ∧ u.context.scopes = w.context.scopes

/-- The resolvers of the host that such a chain asks do the same above any scopes. -/
def Host.Unscoped (L : Layout → Prop) (host : Host) : Prop :=
  ∀ (s : Stack) (l : Layout), L l → allAdmit
    (fun i => ∀ {α : Type} (q : Request α), Action.Above L s (host.custom i q) (host.custom i q))
    l.resolvers

/-- A standard chain without additions asks no resolvers of the host. -/
theorem Host.unscoped_standard (host : Host) (ro : Bool) : host.Unscoped (· = .standard [] ro) := by
  rintro s l rfl
  exact allAdmit_standard _ ro

namespace Action.Above

variable {L : Layout → Prop} {s : Stack}

/-- A computation that ends in a value and leaves the layout and the scopes as they were. -/
theorem of_value {x : Action α} {f : World → World} {g : World → α}
    (hx : ∀ w, x w = .value (g w) (f w)) (hg : ∀ w, g (w.under s) = g w)
    (hf : ∀ w, f (w.under s) = (f w).under s)
    (hkeeps : ∀ w, (f w).context.layout = w.context.layout ∧
      (f w).context.scopes = w.context.scopes) : Above L s x x := by
  intro w _ _
  rw [hx, hx, hg, hf]
  refine ⟨rfl, fun u hu => ?_⟩
  cases hu
  exact hkeeps w

theorem bind {x y : Action α} {f g : α → Action β} (hx : Above L s x y)
    (hfg : ∀ a, Above L s (f a) (g a)) : Above L s (x >>= f) (y >>= g) := by
  intro w hl h
  have hend : x w ≠ .exhausted := fun hw => h (Action.bind_exhausted hw)
  obtain ⟨hy, hkeeps⟩ := hx w hl hend
  cases hw : x w with
  | value a u =>
    rw [hw] at hy hkeeps
    obtain ⟨hlayout, hscopes⟩ := hkeeps u rfl
    rw [Action.bind_value hw] at h ⊢
    rw [Action.bind_value hy]
    obtain ⟨hga, hrest⟩ := hfg a u (hlayout ▸ hl) h
    refine ⟨hga, fun v hv => ?_⟩
    rw [← hlayout, ← hscopes]
    exact hrest v hv
  | fault e u =>
    rw [hw] at hy hkeeps
    rw [Action.bind_fault hw, Action.bind_fault hy]
    exact ⟨rfl, hkeeps⟩
  | exhausted => exact absurd hw hend

theorem attempt {x y : Action α} (hx : Above L s x y) : Above L s x.attempt y.attempt := by
  intro w hl h
  have hend : x w ≠ .exhausted := by
    intro hw
    refine h ?_
    simp only [Action.attempt, hw]
  obtain ⟨hy, hkeeps⟩ := hx w hl hend
  revert hkeeps
  simp only [Action.attempt, hy]
  cases hw : x w with
  | value a u => exact fun hkeeps => ⟨rfl, fun v hv => hkeeps v hv⟩
  | fault e u => exact fun hkeeps => ⟨rfl, fun v hv => hkeeps v hv⟩
  | exhausted => exact absurd hw hend

theorem notify (e : Event) : Above L s (Action.notify e) (Action.notify e) := by
  intro w _ _
  have hkeeps : ∀ u, (Action.notify e w).final? = some u →
      u.context.layout = w.context.layout ∧ u.context.scopes = w.context.scopes := by
    intro u hu
    simp only [Action.notify] at hu
    split at hu <;> cases hu <;> exact ⟨rfl, rfl⟩
  refine ⟨?_, hkeeps⟩
  show Action.notify e (w.under s) = _
  simp only [Action.notify, World.under, World.onStack]
  split <;> rfl

/-- A scope on top goes again, whatever is below. -/
theorem withScope {x y : Action α} (scope : Bindings Value) (hx : Above L s x y) :
    Above L s (withScope scope x) (withScope scope y) := by
  intro w hl h
  rw [withScope_apply] at h ⊢
  have hend : x (w.pushed scope) ≠ .exhausted := by
    intro hw
    rw [hw] at h
    exact h rfl
  obtain ⟨hy, hkeeps⟩ := hx (w.pushed scope) hl hend
  have hpopped {u : World} (hu : u.context.scopes = scope :: w.context.scopes) :
      (u.under s).popped = u.popped.under s := by
    simp only [World.under, World.popped, World.onStack, hu]
    rfl
  have hpushed : (w.under s).pushed scope = (w.pushed scope).under s := rfl
  rw [withScope_apply, hpushed, hy]
  revert hkeeps
  cases x (w.pushed scope) with
  | value a u =>
    intro hkeeps
    obtain ⟨hlayout, hscopes⟩ := hkeeps u rfl
    refine ⟨congrArg (Outcome.value a) (hpopped hscopes), fun v hv => ?_⟩
    cases hv
    exact ⟨hlayout, by show u.context.scopes.tail = _; rw [hscopes]; rfl⟩
  | fault e u =>
    intro hkeeps
    obtain ⟨hlayout, hscopes⟩ := hkeeps u rfl
    refine ⟨congrArg (Outcome.fault e) (hpopped hscopes), fun v hv => ?_⟩
    cases hv
    exact ⟨hlayout, by show u.context.scopes.tail = _; rw [hscopes]; rfl⟩
  | exhausted => exact fun _ => ⟨rfl, nofun⟩

theorem discipline {host : Host} (hr : host.Unscoped L) (s : Stack) :
    Lockstep.Discipline host L (Above L s) where
  pure a := of_value (fun _ => rfl) (fun _ => rfl) (fun _ => rfl) fun _ => ⟨rfl, rfl⟩
  fail e w _ _ := ⟨rfl, fun u hu => by cases hu; exact ⟨rfl, rfl⟩⟩
  bind := bind
  heap := of_value (fun _ => rfl) (fun _ => rfl) (fun _ => rfl) fun _ => ⟨rfl, rfl⟩
  isResolved := of_value (fun _ => rfl) (fun _ => rfl) (fun _ => rfl) fun _ => ⟨rfl, rfl⟩
  context {_ f g} _ hg hfg w hl h := by
    have hsame : g (w.under s).context = g w.context := hg w.context _
    show g (w.under s).context (w.under s) = _ ∧ _
    rw [hsame]
    exact hfg w.context hl w hl h
  setResolved b := of_value (fun _ => rfl) (fun _ => rfl) (fun _ => rfl) fun _ => ⟨rfl, rfl⟩
  setCells h := of_value (fun _ => rfl) (fun _ => rfl) (fun _ => rfl) fun _ => ⟨rfl, rfl⟩
  setStore i f := of_value (fun _ => rfl) (fun _ => rfl) (fun _ => rfl) fun _ => ⟨rfl, rfl⟩
  resolvers l hl := hr s l hl
  attempt := attempt
  notify := notify
  withScope := withScope

end Action.Above

namespace Evaluation

open ExprLang.Action (Above)

variable {host : Host} {L : Layout → Prop} {s : Stack}

/-- A task that is carried out in seclusion is carried out as above the scopes that it does not see. -/
theorem secluded_above (hr : host.Unscoped L) (depth : Nat) {α : Type} (t : Task α) :
    Above L s (secluded host s depth t) (run host depth t) := by
  induction depth generalizing α with
  | zero => exact fun w _ h => absurd rfl h
  | succ depth ih =>
    obtain ⟨f, g, hf, hg, hfg⟩ := step_related
      (Lockstep.Disciplined.mk (Above.discipline hr s) fun t => ih t).programmed t
    intro w hl h
    cases hclear : (t.sight host.classes).clearOf s w.context with
    | false =>
      refine absurd ?_ h
      simp only [secluded, hclear, Bool.false_eq_true, if_false]
    | true =>
      have hsecluded : secluded host s (depth + 1) t w = f ((t.sight host.classes).of w.context) w := by
        have hstep : secluded host s (depth + 1) t w = step host (secluded host s depth) t w := by
          simp only [secluded, hclear, if_true]
        rw [hstep, hf]
        rfl
      have hrun : run host (depth + 1) t (w.under s) =
          g ((t.sight host.classes).of w.context) (w.under s) := by
        have hstep : run host (depth + 1) t (w.under s) = step host (run host depth) t (w.under s) := rfl
        rw [hstep, hg, ← Sight.of_under hclear]
        rfl
      rw [hrun]
      rw [hsecluded] at h ⊢
      exact hfg _ w hl h

/-- A task that is carried out in seclusion is carried out as without. -/
theorem secluded_extends (depth : Nat) {α : Type} (t : Task α) :
    Extends (secluded host s depth t) (run host depth t) := by
  induction depth generalizing α with
  | zero => exact fun w h => absurd rfl h
  | succ depth ih =>
    intro w h
    have hstep : secluded host s (depth + 1) t w = step host (secluded host s depth) t w := by
      simp only [secluded] at h ⊢
      split at h
      · rw [if_pos ‹_›]
      · exact absurd rfl h
    rw [hstep] at h ⊢
    exact step_extends (fun t => ih t) t w h

end Evaluation

/-! ## Uses of variables -/

/-- What may be asked of an expression that is bound to a variable. -/
inductive Access : Type → Type where
  | read : Access Value
  | write (v : Value) : Access Unit
  | typeOf : Access (Option TypeRef)
  | isReadOnly : Access Bool

namespace Access

/-- The task of using a name. -/
def ofName (b : Bound) (name : String) : {α : Type} → Access α → Task α
  | _, read => .eval b (.name name)
  | _, write v => .assign b (.name name) v
  | _, typeOf => .typeOf b (.name name)
  | _, isReadOnly => .readOnly b (.name name)

/-- The use of an expression. -/
def ofExpr (host : Host) (handle : Handler) (e : ValueExpr) : {α : Type} → Access α → Action α
  | _, read => e.read host handle
  | _, write v => e.write handle v
  | _, typeOf => e.type? handle
  | _, isReadOnly => e.isReadOnly handle

/-- Handlers that go in lockstep use an expression so. -/
theorem ofExpr_lockstep {host : Host} {handle handle' : Handler} {L : Layout → Prop}
    {R : ∀ {α : Type}, Action α → Action α → Prop}
    (hd : Lockstep.Composed host handle handle' L R) (e : ValueExpr) (a : Access α) :
    R (a.ofExpr host handle e) (a.ofExpr host handle' e) := by
  cases a with
  | read => exact hd.read e
  | write v => exact hd.write e v
  | typeOf => exact hd.type? e
  | isReadOnly => exact hd.isReadOnly e

end Access

namespace Evaluation

open ExprLang.Action (Above)

variable {host : Host} {L : Layout → Prop} {s : Stack} {b : Bound} {name : String} {e : ValueExpr}
  {depth : Nat} {w : World}

/-- A name that is no argument is used as the expression that is bound to it. -/
theorem access_name (he : b.expression? name = some e) (hfree : w.context.isArgument name = false)
    (a : Access α) :
    run host (depth + 1) (a.ofName b name) w = a.ofExpr host (run host depth) e w := by
  cases a with
  | read =>
    have hargument : w.context.argument? name = none := by
      rwa [Context.isArgument_eq, Option.isSome_eq_false_iff, Option.isNone_iff_eq_none] at hfree
    show nameValue host (run host depth) b name w = _
    rw [nameValue, findValue_eq, bind_assoc, Action.bind_value (Action.context_apply w), hargument]
    simp only [valueOf, he, map_eq_pure_bind, bind_assoc, pure_bind]
    exact congrFun (bind_pure _) w
  | write v =>
    show assign host (run host depth) b (.name name) v w = _
    rw [assign, Action.bind_value (Action.context_apply w), hfree, he]
    rfl
  | typeOf =>
    show typeOf host (run host depth) b (.name name) w = _
    rw [typeOf, Action.bind_value (Action.context_apply w), hfree, he]
    rfl
  | isReadOnly =>
    show readOnly host (run host depth) b (.name name) w = _
    rw [readOnly, Action.bind_value (Action.context_apply w), hfree, he]
    rfl

/-- What is asked of an expression in seclusion is answered alike above scopes that it does not see. -/
theorem ofExpr_under (hr : host.Unscoped L) (hl : L w.context.layout) (a : Access α)
    (h : a.ofExpr host (secluded host s depth) e w ≠ .exhausted) :
    a.ofExpr host (run host depth) e (w.under s) =
      (a.ofExpr host (run host depth) e w).after (·.under s) := by
  have habove : Above L s (a.ofExpr host (secluded host s depth) e) (a.ofExpr host (run host depth) e) :=
    a.ofExpr_lockstep ⟨(Above.discipline hr s).composition, secluded_above hr depth⟩ e
  have hextends : Extends (a.ofExpr host (secluded host s depth) e) (a.ofExpr host (run host depth) e) :=
    a.ofExpr_lockstep ⟨(extends_discipline host).composition, secluded_extends depth⟩ e
  rw [hextends w h]
  exact (habove w hl h).1

/-- A variable that is no argument means the expression that is bound to it, in the context of its use with
all arguments in sight there: what is asked of the variable is asked of that expression. More scopes of
arguments around make no difference where, asked without them, it looks up no name that they bind and
makes no lambda. -/
theorem variable_means_expression (hr : host.Unscoped L) (he : b.expression? name = some e)
    (a : Access α) (depth : Nat) (w : World) (hl : L w.context.layout) (s : Stack)
    (hfree : (w.under s).context.isArgument name = false) :
    run host (depth + 1) (a.ofName b name) (w.under s) =
        a.ofExpr host (run host depth) e (w.under s) ∧
      (a.ofExpr host (secluded host s depth) e w ≠ .exhausted →
        run host (depth + 1) (a.ofName b name) (w.under s) =
          (a.ofExpr host (run host depth) e w).after (·.under s)) := by
  have hname : run host (depth + 1) (a.ofName b name) (w.under s) =
      a.ofExpr host (run host depth) e (w.under s) := access_name he hfree a
  refine ⟨hname, fun h => ?_⟩
  rw [hname]
  exact ofExpr_under hr hl a h

/-! ### A variable for a named value -/

/-- The expression `${name}`. -/
def naming (name : String) : ValueExpr := .parsed ("$\x7b" ++ name ++ "\x7d") (.name name) .empty none

/-- A world in which one name has a value. -/
def worldOf (name : String) (v : Value) : World :=
  { World.fresh .bare .none with
    context := { Context.standard false false with stores := #[[(name, v)]], imports := .none } }

/-- `(x -> v)(1)` where `v` stands for `${x}` and `x` is 10: the parameter hides the value also from the
expression that the variable stands for, which is 10 elsewhere. -/
theorem parameter_hides_value :
    let b : Bound := .mk [] [("v", naming "x")]
    b.expression? "v" = some (naming "x") ∧
      (∃ u, (naming "x").read .bare (run .bare 6) (worldOf "x" (.long 10)) = .value (.long 10) u) ∧
      ∃ u, run .bare 8 (.eval b (.lambda ["x"] (.name "v") [[.integer "1"]])) (worldOf "x" (.long 10)) =
        .value (.long 1) u :=
  ⟨rfl, ⟨_, rfl⟩, ⟨_, rfl⟩⟩

/-- `(x -> v)(1)` where `v` stands for `${y}` and `y` is 10: within the lambda `v` is read as without it. -/
theorem other_parameter_ignored :
    let b : Bound := .mk [] [("v", naming "y")]
    let w := worldOf "y" (.long 10)
    let s : Stack := [[("x", .long 1)]]
    b.expression? "v" = some (naming "y") ∧ (w.under s).context.isArgument "v" = false ∧
      (∃ u, (naming "y").read .bare (run .bare 6) w = .value (.long 10) u) ∧
      run .bare 7 (.eval b (.name "v")) (w.under s) =
        ((naming "y").read .bare (run .bare 6) w).after (·.under s) := by
  intro b w s
  have hsecluded : (Access.read).ofExpr .bare (secluded .bare s 6) (naming "y") w ≠ .exhausted := by
    obtain ⟨u, hu⟩ : ∃ u, (Access.read).ofExpr .bare (secluded .bare s 6) (naming "y") w =
        .value (.long 10) u := ⟨_, rfl⟩
    rw [hu]
    nofun
  exact ⟨rfl, rfl, ⟨_, rfl⟩, (variable_means_expression (Host.bare.unscoped_standard false)
    (b := b) (e := naming "y") rfl .read 6 w rfl s rfl).2 hsecluded⟩

end Evaluation

end ExprLang
