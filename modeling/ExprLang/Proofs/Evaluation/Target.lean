import ExprLang.Proofs.Evaluation.Steady
import ExprLang.Proofs.Resolution.Writing

/-! What a tree denotes as the target of an assignment. The query of permissions, that of types and the
assignment itself find it in the same way, each with its own code, and then ask for one thing. -/

namespace ExprLang

/-! ## Worlds that differ in events -/

/-- Two worlds that differ in what happened at most. The context is `c`, but for claims and the values of
names. -/
structure World.Twin (c : Context) (w w' : World) : Prop where
  heap : w'.heap = w.heap
  context : w'.context = w.context
  frame : { w.context with resolved := c.resolved, stores := c.stores } = c

namespace World.Twin

variable {c : Context} {w w' u u' : World}

theorem layout (h : Twin c w w') : w.context.layout = c.layout := by
  have hc := congrArg Context.layout h.frame
  exact hc

theorem listeners (h : Twin c w w') : w.context.listeners = c.listeners := by
  have hc := congrArg Context.listeners h.frame
  exact hc

theorem scopes (h : Twin c w w') : w.context.scopes = c.scopes := by
  have hc := congrArg Context.scopes h.frame
  exact hc

theorem isArgument (h : Twin c w w') (name : String) : w.context.isArgument name = c.isArgument name := by
  rw [Context.isArgument, h.scopes, ← Context.isArgument]

theorem first (h : Twin c w w') : Twin c w w := ⟨rfl, rfl, h.frame⟩

theorem self (w : World) : Twin w.context w w := ⟨rfl, rfl, rfl⟩

theorem event (h : Twin c w w') (e : Event) : Twin c w { w' with log := e :: w'.log } :=
  ⟨h.heap, h.context, h.frame⟩

theorem plain {ro : Bool} (h : Twin c w w') (hl : c.layout = .standard [] ro)
    (hn : c.listeners = []) : w.Plain ro :=
  ⟨h.layout.trans hl, h.listeners.trans hn⟩

theorem parallel (h : Twin c w w') : Parallel c c.scopes w.log w'.log w w' where
  heap := h.heap
  frame := h.frame
  context := by rw [h.context, ← h.scopes]
  log := ⟨[], rfl, rfl⟩

end World.Twin

theorem Parallel.twin {c : Context} {p p' : List Event} {w w' : World}
    (h : Parallel c c.scopes p p' w w') : w.Twin c w' where
  heap := h.heap
  context := by rw [h.context, ← h.scopes]
  frame := h.frame

open Outcome (Paired)

variable {c : Context} {L : Layout → Prop} {α : Type} {w w' u : World}

theorem Action.Steady.twin {x : Action α} (hx : Action.Steady L x) (hl : L c.layout)
    (h : w.Twin c w') : Paired (World.Twin c) (x w) (x w') :=
  (hx c c.scopes w.log w'.log hl (.refl _) w w' h.parallel).mono fun _ _ => Parallel.twin

/-- What a steady computation leaves behind has the same context but for claims and the values of
names. -/
theorem Action.Steady.frame {x : Action α} {a : α} (hx : Action.Steady L x) (hl : L c.layout)
    (h : w.Twin c w) (hvalue : x w = .value a u) : u.Twin c u := by
  have hpair := hx.twin hl h
  rw [hvalue] at hpair
  cases hpair with
  | value a hu => exact hu.first

/-- Where nobody listens, what is told of an expression makes no difference. -/
theorem Outcome.Paired.bracketed {x y : Action α} (text : String) (hn : c.listeners = [])
    (hxy : ∀ w', w.Twin c w' → Paired (World.Twin c) (x w) (y w')) (h : w.Twin c w') :
    Paired (World.Twin c) (x w) (bracketed text y w') := by
  have hnotify {w w' : World} (h : w.Twin c w') (e : Event) :
      Action.notify e w' = .value () { w' with log := e :: w'.log } := by
    have hlisteners : w'.context.listeners = [] := by rw [h.context, h.listeners, hn]
    simp only [Action.notify, hlisteners]
    rfl
  have hpair := hxy _ (h.event (.before text))
  rw [ExprLang.bracketed, Action.bind_value (hnotify h _)]
  generalize hx : x w = o, hy : y { w' with log := .before text :: w'.log } = o' at hpair
  cases hpair with
  | value a hu =>
    rw [Action.bind_value hy, Action.bind_value (hnotify hu _)]
    exact .value a (hu.event _)
  | fault e hu =>
    rw [Action.bind_fault hy]
    exact .fault e hu
  | exhausted =>
    rw [Action.bind_exhausted hy]
    exact .exhausted

namespace Evaluation

/-! ## Targets -/

/-- What a tree denotes. -/
inductive Denoted where
  /-- An argument of a lambda. -/
  | argument (name : String)
  /-- The value of a variable that is no tree. -/
  | literal (v : Value)
  /-- A name that nothing hides. -/
  | name (name : String)
  | property (base property : Value)
  | callResult
  | other (n : Node)

variable (host : Host) (handle : Handler)

namespace Denoted

def isReadOnly : Denoted → Action Bool
  | name n => Resolution.readOnly host handle .null (.text n)
  | property base k => Resolution.readOnly host handle base k
  | _ => pure true

def write (v : Value) : Denoted → Action Unit
  | argument n => Action.fail (.lambdaParameter n)
  | literal x => do Action.fail (.fixedValue ((← Action.heap).display x))
  | name n => Resolution.set host handle .null (.text n) v
  | property base k => Resolution.write host handle base k v
  | callResult => Action.fail .callResult
  | other n => Action.fail (.notAssignable n.kind)

end Denoted

/-- What a tree denotes, and the depth that is left there. -/
def denote : Nat → Bound → Node → Action (Nat × Denoted)
  | 0, _, _ => Action.exhausted
  | depth + 1, b, n =>
    match n with
    | .deferred body => denote depth b body
    | .dynamic body => denote depth b body
    | .name name => do
      if (← Action.context).isArgument name then pure (depth, .argument name)
      else
        match b.expression? name with
        | some (.parsed _ node bound _) => denote depth bound node
        | some (.literal v _) => pure (depth, .literal v)
        | none => pure (depth, .name name)
    | .path base steps => do
      let (base, last) ← target host (run host depth) b base steps
      if last.isCall then pure (depth, .callResult)
      else
        let k ← selected (run host depth) b last.selector
        pure (depth, .property base k)
    | .choice condition yes no => do
      let chosen ← branch (run host depth) b condition yes no
      denote depth b chosen
    | .sequence first second => do
      let _ ← run host depth (.eval b first)
      denote depth b second
    | n => pure (depth, .other n)

variable {host} {ro : Bool} {b : Bound} {n : Node} {depth : Nat}

theorem denote_steady (hr : host.Steady L) (depth : Nat) (b : Bound) (n : Node) :
    Action.Steady L (denote host depth b n) := by
  induction depth generalizing b n with
  | zero => exact hr.discipline.exhausted
  | succ depth ih =>
    have hd := (hr.disciplined depth).programmed
    cases n with
    | deferred body => exact ih b body
    | dynamic body => exact ih b body
    | name name =>
      refine hd.context (fun c d h => by simp only [h.isArgument]) fun c _ => hd.ite (hd.pure _) ?_
      split
      · exact ih _ _
      · exact hd.pure _
      · exact hd.pure _
    | path base steps =>
      exact hd.bind (target_obeys hd b base steps) fun _ => hd.ite (hd.pure _) <|
        hd.bind (selected_obeys hd b _) fun _ => hd.pure _
    | choice condition yes no => exact hd.bind (branch_obeys hd b condition yes no) fun _ => ih _ _
    | sequence first second => exact hd.bind (hd.handler _) fun _ => ih _ _
    | _ => exact hd.pure _

section Equations
variable (f : Nat × Denoted → Action α)

theorem denote_argument_bind {name : String} (h : w.context.isArgument name = true) :
    (denote host (depth + 1) b (.name name) >>= f) w = f (depth, .argument name) w := by
  refine Action.bind_value (v := w) ?_
  rw [denote, Action.bind_value (Action.context_apply w), if_pos h]
  rfl

theorem denote_free_bind {name : String} (h : w.context.isArgument name = false) :
    (denote host (depth + 1) b (.name name) >>= f) w =
      (match b.expression? name with
      | some (.parsed _ node bound _) => denote host depth bound node >>= f
      | some (.literal v _) => f (depth, .literal v)
      | none => f (depth, .name name)) w := by
  rw [denote, bind_assoc, Action.bind_value (Action.context_apply w), h]
  cases b.expression? name with
  | none => rfl
  | some e => cases e <;> rfl

theorem denote_path_bind (base : Node) (steps : List Step) :
    (denote host (depth + 1) b (.path base steps) >>= f) = (do
      let (v, last) ← target host (run host depth) b base steps
      if last.isCall then f (depth, .callResult)
      else
        let k ← selected (run host depth) b last.selector
        f (depth, .property v k)) := by
  rw [denote, bind_assoc]
  refine bind_congr fun t => ?_
  dsimp only
  split
  · rw [pure_bind]
  · rw [bind_assoc]
    rfl

end Equations

/-! ## Assignments -/

/-- An assignment writes to what the tree denotes. -/
theorem assign_denoted (hr : host.Steady L) (hl : L c.layout) (hn : c.listeners = []) (v : Value)
    (h : w.Twin c w') :
    Paired (World.Twin c)
      ((denote host depth b n >>= fun d => d.2.write host (run host d.1) v) w)
      (run host depth (.assign b n v) w') := by
  induction depth generalizing b n w w' with
  | zero => exact .exhausted
  | succ depth ih =>
    have hd := (hr.disciplined depth).programmed
    cases n with
    | deferred body => exact ih h
    | dynamic body => exact ih h
    | name name =>
      have hassign : run host (depth + 1) (.assign b (.name name) v) w' =
          assign host (run host depth) b (.name name) v w' := rfl
      rw [hassign, assign, Action.bind_value (Action.context_apply w'), h.context]
      cases harg : w.context.isArgument name with
      | true =>
        rw [denote_argument_bind _ harg]
        exact .fault _ h
      | false =>
        rw [denote_free_bind _ harg]
        cases b.expression? name with
        | none => exact (Resolution.require_obeys hd _ _ _).twin hl h
        | some e =>
          cases e with
          | parsed text node bound expected => exact .bracketed text hn (fun _ hw => ih hw) h
          | literal x expected => exact (hd.bind hd.heap fun _ => hd.fail _).twin hl h
    | path base steps =>
      rw [denote_path_bind]
      exact (run_steady hr (depth + 1) (.assign b (.path base steps) v)).twin hl h
    | choice condition yes no =>
      rw [denote, bind_assoc]
      exact ((branch_obeys hd b condition yes no).twin hl h).bind fun chosen u u' _ hu => ih hu
    | sequence first second =>
      rw [denote, bind_assoc]
      exact ((run_steady hr depth _).twin hl h).bind fun _ u u' _ hu => ih hu
    | _ => exact .fault _ h

/-! ## Queries -/

/-- What the tree denotes is looked for in other trees. -/
def leadsOn : Node → Bool
  | .deferred _ | .dynamic _ | .name _ | .choice _ _ _ | .sequence _ _ => true
  | _ => false

/-- No sequence stands where the target is looked for: in the tree, in both branches of a choice, and in
the tree of a variable that it denotes, which is one that no argument hides. -/
inductive Unsequenced (isArgument : String → Bool) : Bound → Node → Prop where
  | deferred {b : Bound} {body : Node} :
    Unsequenced isArgument b body → Unsequenced isArgument b (.deferred body)
  | dynamic {b : Bound} {body : Node} :
    Unsequenced isArgument b body → Unsequenced isArgument b (.dynamic body)
  | name {b : Bound} {name : String} :
    (isArgument name = false → ∀ text node bound expected,
      b.expression? name = some (.parsed text node bound expected) →
        Unsequenced isArgument bound node) →
    Unsequenced isArgument b (.name name)
  | choice {b : Bound} {condition yes no : Node} :
    Unsequenced isArgument b yes → Unsequenced isArgument b no →
      Unsequenced isArgument b (.choice condition yes no)
  | other {b : Bound} {n : Node} : leadsOn n = false → Unsequenced isArgument b n

/-- A branch is one of the two. -/
theorem branch_value {handle : Handler} {condition yes no chosen : Node}
    (h : branch handle b condition yes no w = .value chosen u) : chosen = yes ∨ chosen = no := by
  obtain ⟨t, v, -, hchosen⟩ := Action.bind_eq_value.mp h
  cases t with
  | true =>
    cases hchosen
    exact .inl rfl
  | false =>
    cases hchosen
    exact .inr rfl

/-- The query of permissions asks about what the tree denotes. -/
theorem readOnly_denoted (hr : host.Steady L) (hl : L c.layout)
    (hn : Unsequenced c.isArgument b n) (h : w.Twin c w) :
    run host depth (.readOnly b n) w =
      (denote host depth b n >>= fun d => d.2.isReadOnly host (run host d.1)) w := by
  induction depth generalizing b n w with
  | zero => rfl
  | succ depth ih =>
    have hd := (hr.disciplined depth).programmed
    cases hn with
    | deferred hbody => exact ih hbody h
    | dynamic hbody => exact ih hbody h
    | @name _ name hname =>
      have hreadOnly : run host (depth + 1) (.readOnly b (.name name)) w =
          readOnly host (run host depth) b (.name name) w := rfl
      rw [hreadOnly, readOnly, Action.bind_value (Action.context_apply w)]
      cases harg : w.context.isArgument name with
      | true =>
        rw [denote_argument_bind _ harg]
        rfl
      | false =>
        rw [denote_free_bind _ harg]
        cases he : b.expression? name with
        | none => rfl
        | some e =>
          cases e with
          | parsed text node bound expected =>
            exact ih (hname (by rw [← h.isArgument, harg]) text node bound expected he) h
          | literal x expected => rfl
    | @choice _ condition yes no hyes hno =>
      rw [denote, bind_assoc]
      show (branch (run host depth) b condition yes no >>= fun chosen =>
        run host depth (.readOnly b chosen)) w = _
      have hbranch := branch_obeys hd b condition yes no
      cases hchosen : branch (run host depth) b condition yes no w with
      | fault e u => rw [Action.bind_fault hchosen, Action.bind_fault hchosen]
      | exhausted => rw [Action.bind_exhausted hchosen, Action.bind_exhausted hchosen]
      | value chosen u =>
        rw [Action.bind_value hchosen, Action.bind_value hchosen]
        have hu := hbranch.frame hl h hchosen
        obtain rfl | rfl := branch_value hchosen
        · exact ih hyes hu
        · exact ih hno hu
    | other hother =>
      cases n with
      | path base steps =>
        rw [denote_path_bind]
        rfl
      | deferred | dynamic | name | choice | sequence => cases hother
      | _ => rfl

/-- A name denotes a property where a variable does. -/
theorem denote_name_value {name : String} {d : Nat} {base k : Value}
    (h : denote host (depth + 1) b (.name name) w = .value (d, .property base k) u) :
    w.context.isArgument name = false ∧ ∃ text node bound expected,
      b.expression? name = some (.parsed text node bound expected) ∧
        denote host depth bound node w = .value (d, .property base k) u := by
  rw [← bind_pure (denote host (depth + 1) b (.name name))] at h
  cases harg : w.context.isArgument name with
  | true =>
    rw [denote_argument_bind _ harg] at h
    cases h
  | false =>
    rw [denote_free_bind _ harg] at h
    cases he : b.expression? name with
    | none =>
      rw [he] at h
      cases h
    | some e =>
      rw [he] at h
      cases e with
      | parsed text node bound expected =>
        dsimp only at h
        rw [bind_pure] at h
        exact ⟨rfl, text, node, bound, expected, rfl, h⟩
      | literal x expected => cases h

theorem denote_path_value {base : Node} {steps : List Step} {d : Nat × Denoted}
    (h : denote host (depth + 1) b (.path base steps) w = .value d u) :
    ∃ v last w₁, target host (run host depth) b base steps w = .value (v, last) w₁ ∧
      ((last.isCall = true ∧ d = (depth, .callResult) ∧ u = w₁) ∨
        last.isCall = false ∧ ∃ k, selected (run host depth) b last.selector w₁ = .value k u ∧
          d = (depth, .property v k)) := by
  rw [← bind_pure (denote host (depth + 1) b (.path base steps)), denote_path_bind] at h
  obtain ⟨⟨v, last⟩, w₁, htarget, hrest⟩ := Action.bind_eq_value.mp h
  refine ⟨v, last, w₁, htarget, ?_⟩
  dsimp only at hrest
  cases hcall : last.isCall with
  | true =>
    rw [if_pos hcall] at hrest
    cases hrest
    exact .inl ⟨rfl, rfl, rfl⟩
  | false =>
    rw [hcall] at hrest
    obtain ⟨k, w₂, hk, hd⟩ := Action.bind_eq_value.mp hrest
    cases hd
    exact .inr ⟨rfl, k, hk, rfl⟩

/-- Where the tree denotes a property, the query of types asks about it. -/
theorem typeOf_denoted {d : Nat} {base k : Value} (hr : host.Steady L) (hl : L c.layout)
    (hn : Unsequenced c.isArgument b n) (h : w.Twin c w)
    (hdenote : denote host depth b n w = .value (d, .property base k) u) :
    run host depth (.typeOf b n) w = Resolution.type host (run host d) base k u := by
  induction depth generalizing b n w with
  | zero => cases hdenote
  | succ depth ih =>
    have hd := (hr.disciplined depth).programmed
    cases hn with
    | deferred hbody => exact ih hbody h hdenote
    | dynamic hbody => exact ih hbody h hdenote
    | @name _ name hname =>
      obtain ⟨harg, text, node, bound, expected, he, hbound⟩ := denote_name_value hdenote
      have htypeOf : run host (depth + 1) (.typeOf b (.name name)) w =
          typeOf host (run host depth) b (.name name) w := rfl
      rw [htypeOf, typeOf, Action.bind_value (Action.context_apply w), harg, he]
      exact ih (hname (by rw [← h.isArgument, harg]) text node bound expected he) h hbound
    | @choice _ condition yes no hyes hno =>
      obtain ⟨chosen, v, hchosen, hrest⟩ := Action.bind_eq_value.mp hdenote
      have htypeOf : run host (depth + 1) (.typeOf b (.choice condition yes no)) w =
          run host depth (.typeOf b chosen) v := Action.bind_value hchosen
      have hv := (branch_obeys hd b condition yes no).frame hl h hchosen
      rw [htypeOf]
      obtain rfl | rfl := branch_value hchosen
      · exact ih hyes hv hrest
      · exact ih hno hv hrest
    | other hother =>
      cases n with
      | path target steps =>
        obtain ⟨v, last, w₁, htarget, ⟨-, hd, -⟩ | ⟨hcall, k', hk, hd⟩⟩ := denote_path_value hdenote
        · cases hd
        · cases hd
          show Evaluation.typeOf host (run host _) b (.path target steps) w = _
          rw [typeOf, Action.bind_value htarget]
          dsimp only
          rw [hcall]
          exact Action.bind_value hk
      | deferred | dynamic | name | choice | sequence => cases hother
      | _ => cases hdenote

/-! ## What stands before a property -/

theorem reach_value {handle : Handler} {v x : Value} {steps : List Step} (hv : v.isNull = false)
    (h : reach host handle b v steps w = .value x u) : x.isNull = false := by
  induction steps generalizing v w with
  | nil =>
    cases h
    exact hv
  | cons s steps ih =>
    obtain ⟨y, w₁, -, hrest⟩ := Action.bind_eq_value.mp h
    cases hy : y.isNull with
    | true =>
      rw [hy] at hrest
      cases hrest
    | false =>
      rw [hy] at hrest
      exact ih hy hrest

theorem target_value {handle : Handler} {base : Node} {steps : List Step} {t : Value × Step}
    (h : target host handle b base steps w = .value t u) : t.1.isNull = false := by
  unfold target at h
  cases hlast : steps.getLast? with
  | none =>
    rw [hlast] at h
    cases h
  | some last =>
    rw [hlast] at h
    obtain ⟨v, w₁, -, hrest⟩ := Action.bind_eq_value.mp h
    cases hv : v.isNull with
    | true =>
      rw [hv] at hrest
      cases hrest
    | false =>
      rw [hv] at hrest
      obtain ⟨x, w₂, hx, ht⟩ := Action.bind_eq_value.mp hrest
      cases ht
      exact reach_value hv hx

/-- A property is one of a value that is not null. -/
theorem denote_nonnull {d : Nat} {base k : Value}
    (h : denote host depth b n w = .value (d, .property base k) u) : base ≠ .null := by
  induction depth generalizing b n w with
  | zero => cases h
  | succ depth ih =>
    cases n with
    | deferred body => exact ih h
    | dynamic body => exact ih h
    | name name =>
      obtain ⟨-, _, _, _, _, -, hbound⟩ := denote_name_value h
      exact ih hbound
    | path target steps =>
      obtain ⟨v, last, w₁, htarget, ⟨-, hd, -⟩ | ⟨-, k', -, hd⟩⟩ := denote_path_value h
      · cases hd
      · cases hd
        rintro rfl
        cases target_value htarget
    | choice condition yes no =>
      obtain ⟨chosen, v, -, hrest⟩ := Action.bind_eq_value.mp h
      exact ih hrest
    | sequence first second =>
      obtain ⟨_, v, -, hrest⟩ := Action.bind_eq_value.mp h
      exact ih hrest
    | _ => cases h

end Evaluation

end ExprLang
