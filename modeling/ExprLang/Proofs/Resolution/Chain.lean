import ExprLang.Proofs.Resolution.Claimed

/-! Chains of resolvers put together. A group that stands in a chain is asked like its members in its
place, and a resolver that has nothing to say may stand anywhere. The members of a group are fixed before
it is asked. -/

namespace ExprLang

theorem World.flagged_self {w : World} {b : Bool} (h : w.context.resolved = b) : w.flagged b = w := by
  subst h
  rfl

mutual

/-- The resolvers that are no groups, in the order in which they are asked. -/
def Resolver.leaves : Resolver → List Resolver
  | .group members => leavesOf members
  | r => [r]

def leavesOf : List Resolver → List Resolver
  | [] => []
  | r :: rs => r.leaves ++ leavesOf rs

end

theorem leavesOf_append (rs after : List Resolver) :
    leavesOf (rs ++ after) = leavesOf rs ++ leavesOf after := by
  induction rs with
  | nil => rw [leavesOf, List.nil_append, List.nil_append]
  | cons r rs ih => rw [List.cons_append, leavesOf, leavesOf, ih, List.append_assoc]

theorem leavesOf_group (members after : List Resolver) :
    leavesOf (.group members :: after) = leavesOf (members ++ after) := by
  rw [leavesOf, Resolver.leaves, leavesOf_append]

/-- A resolver that claims no request, never fails and changes nothing. It is only asked as long as
nothing else has claimed the request. -/
def Resolver.Silent (answer : Answerer) (r : Resolver) : Prop :=
  ∀ {α : Type} (q : Request α) (w : World), w.context.resolved = false →
    ∃ a, r.ask answer q w = .value a w

section Chain
variable {answer : Answerer} {α : Type} {q : Request α} {w : World}

/-- The members of a chain are asked until one claims the request, and what follows them only then. -/
theorem askAll_append (rs after : List Resolver) (hw : w.context.resolved = false) :
    askAll answer (rs ++ after) q w =
      (do
        let a ← askAll answer rs q
        if ← Action.isResolved then pure a else askAll answer after q) w := by
  induction rs generalizing w with
  | nil =>
    rw [List.nil_append, askAll, Action.bind_value (Action.pure_apply q.neutral w),
      Action.bind_value (Action.isResolved_apply w), hw]
    rfl
  | cons r rs ih =>
    cases hr : r.ask answer q w with
    | value a u =>
      cases hu : u.context.resolved with
      | true =>
        rw [List.cons_append, askAll_cons_resolved hr hu,
          Action.bind_value (askAll_cons_resolved hr hu), Action.bind_value (Action.isResolved_apply u),
          hu]
        rfl
      | false =>
        have hrest : askAll answer (r :: rs) q w = askAll answer rs q u := askAll_cons_declined hr hu
        rw [List.cons_append, askAll_cons_declined hr hu, ih hu]
        show Action.bind _ _ _ = Action.bind _ _ _
        simp only [Action.bind, hrest]
    | fault e u =>
      have hrest : askAll answer (r :: rs) q w = .fault e u := by rw [askAll, Action.bind_fault hr]
      rw [List.cons_append, askAll, Action.bind_fault hr, Action.bind_fault hrest]
    | exhausted =>
      have hrest : askAll answer (r :: rs) q w = .exhausted := by
        rw [askAll, Action.bind_exhausted hr]
      rw [List.cons_append, askAll, Action.bind_exhausted hr, Action.bind_exhausted hrest]

/-- A chain may go on differently behind the same members. -/
theorem askAll_append_congr (rs : List Resolver) {after after' : List Resolver}
    (h : ∀ u : World, u.context.resolved = false → askAll answer after q u = askAll answer after' q u)
    (hw : w.context.resolved = false) :
    askAll answer (rs ++ after) q w = askAll answer (rs ++ after') q w := by
  rw [askAll_append rs after hw, askAll_append rs after' hw]
  cases hrs : askAll answer rs q w with
  | value a u =>
    rw [Action.bind_value hrs, Action.bind_value hrs, Action.bind_value (Action.isResolved_apply u),
      Action.bind_value (Action.isResolved_apply u)]
    cases hu : u.context.resolved with
    | true => rfl
    | false => exact h u hu
  | fault e u => rw [Action.bind_fault hrs, Action.bind_fault hrs]
  | exhausted => rw [Action.bind_exhausted hrs, Action.bind_exhausted hrs]

/-- A group sets the flag back before it asks its members, but there it is clear anyway. -/
theorem ask_group (members : List Resolver) (hw : w.context.resolved = false) :
    (Resolver.group members).ask answer q w = askAll answer members q w := by
  rw [Resolver.ask]
  show askAll answer members q (w.flagged false) = _
  rw [World.flagged_self hw]

theorem askAll_group (members after : List Resolver) (hw : w.context.resolved = false) :
    askAll answer (.group members :: after) q w = askAll answer (members ++ after) q w := by
  rw [askAll, askAll_append members after hw]
  show Action.bind _ _ _ = Action.bind _ _ _
  simp only [Action.bind, ask_group members hw]

mutual

theorem Resolver.askAll_leaves : ∀ (r : Resolver) (after : List Resolver) (w : World),
    w.context.resolved = false →
      askAll answer (r :: after) q w = askAll answer (r.leaves ++ after) q w
  | .group members, after, w, hw => by
    rw [askAll_group members after hw, Resolver.leaves]
    exact askAll_leavesOf members after w hw
  | .names _, _, _, _ | .statics, _, _, _ | .maps _, _, _, _ | .lists _, _, _, _
  | .arrays _, _, _, _ | .records, _, _, _ | .beans _, _, _, _ | .custom _, _, _, _ => by
    rw [Resolver.leaves]
    · rfl
    · rintro _ ⟨⟩

/-- However groups are nested in a chain, it is asked like the list of its leaves. -/
theorem askAll_leavesOf : ∀ (rs after : List Resolver) (w : World), w.context.resolved = false →
    askAll answer (rs ++ after) q w = askAll answer (leavesOf rs ++ after) q w
  | [], _, _, _ => by rw [leavesOf]
  | r :: rs, after, w, hw => by
    rw [List.cons_append, leavesOf, List.append_assoc, Resolver.askAll_leaves r (rs ++ after) w hw]
    exact askAll_append_congr r.leaves (fun u hu => askAll_leavesOf rs after u hu) hw

end

/-- Chains with the same leaves give the same answers, and do the same meanwhile. -/
theorem ask_eq_of_leaves {rs rs' : List Resolver} (h : leavesOf rs = leavesOf rs') :
    (Resolver.group rs).ask answer q = (Resolver.group rs').ask answer q := by
  funext w
  have hleaves (rs : List Resolver) :
      askAll answer rs q (w.flagged false) = askAll answer (leavesOf rs) q (w.flagged false) := by
    have hrs : askAll answer (rs ++ []) q _ = askAll answer (leavesOf rs ++ []) q _ :=
      askAll_leavesOf rs [] (w.flagged false) rfl
    rwa [List.append_nil, List.append_nil] at hrs
  rw [Resolver.ask, Resolver.ask]
  show askAll answer rs q (w.flagged false) = askAll answer rs' q (w.flagged false)
  rw [hleaves rs, hleaves rs', h]

theorem askAll_silent {r : Resolver} (hr : r.Silent answer) (after : List Resolver)
    (hw : w.context.resolved = false) :
    askAll answer (r :: after) q w = askAll answer after q w := by
  obtain ⟨a, ha⟩ := hr q w hw
  exact askAll_cons_declined ha hw

/-- A group of silent resolvers is silent. -/
theorem silent_group {members : List Resolver} (h : ∀ r ∈ members, r.Silent answer) :
    (Resolver.group members).Silent answer := by
  intro α q w hw
  rw [ask_group members hw]
  induction members with
  | nil =>
    rw [askAll]
    exact ⟨_, rfl⟩
  | cons r rs ih =>
    rw [askAll_silent (h r List.mem_cons_self) rs hw]
    exact ih fun s hs => h s (List.mem_cons_of_mem r hs)

end Chain

/-- Resolvers that are added to the standard chain are asked behind the names and before all others. -/
theorem askChain_standard {answer : Answerer} {α : Type} {q : Request α} {w : World}
    {added : List Resolver} {ro : Bool} (hw : w.context.layout = .standard added ro) :
    askChain answer q w = askAll answer ([.names Layout.localStore] ++ (added ++
      [.statics, .maps false, .lists false, .arrays false, .records, .beans ro])) q
      (w.flagged false) := by
  rw [askChain_apply, hw]
  exact askAll_append_congr [.names Layout.localStore] (fun u hu => askAll_group added _ hu) rfl

/-- A chain with a group in the middle is the chain with the members in place of the group: every request
has the same answer or the same fault, leaves the flag of claims the same and has the same effects. And a
chain with a silent resolver somewhere is the chain without it. -/
theorem chains_compose (answer : Answerer) (before members after : List Resolver) {α : Type}
    (q : Request α) :
    (Resolver.group (before ++ [.group members] ++ after)).ask answer q =
        (Resolver.group (before ++ members ++ after)).ask answer q ∧
      ∀ r : Resolver, r.Silent answer →
        (Resolver.group (before ++ [r] ++ after)).ask answer q =
          (Resolver.group (before ++ after)).ask answer q := by
  constructor
  · apply ask_eq_of_leaves
    rw [List.append_assoc, List.append_assoc, leavesOf_append before, leavesOf_append before,
      List.singleton_append, leavesOf_group]
  · intro r hr
    funext w
    rw [Resolver.ask, Resolver.ask, List.append_assoc]
    exact askAll_append_congr before (fun u hu => askAll_silent hr after hu) rfl

/-- A static member is found behind a group of a resolver that answers nothing, and without it. -/
theorem constant_behind_group :
    (Resolver.custom 0).Silent (Resolution.answer .bare (Evaluation.evaluator .bare)) ∧
      (Resolver.group ([.names 0] ++ [.group [.custom 0, .statics]] ++ [.beans false])).ask
          (Resolution.answer .bare (Evaluation.evaluator .bare))
          (.get (.cls (.builtin .math)) (.text "PI")) (.fresh .bare .none) =
        (Resolver.group ([.names 0] ++ [.statics, .beans false])).ask
          (Resolution.answer .bare (Evaluation.evaluator .bare))
          (.get (.cls (.builtin .math)) (.text "PI")) (.fresh .bare .none) ∧
      ∃ u, (Resolver.group ([.names 0] ++ [.statics, .beans false])).ask
          (Resolution.answer .bare (Evaluation.evaluator .bare))
          (.get (.cls (.builtin .math)) (.text "PI")) (.fresh .bare .none) =
        .value (.double Builtin.pi) u ∧ u.context.resolved = true := by
  have hsilent : (Resolver.custom 0).Silent
      (Resolution.answer .bare (Evaluation.evaluator .bare)) := fun _ _ _ => ⟨_, rfl⟩
  refine ⟨hsilent, ?_, _, rfl, rfl⟩
  have hgroup := (chains_compose (Resolution.answer .bare (Evaluation.evaluator .bare)) [.names 0]
    [.custom 0, .statics] [.beans false] (.get (.cls (.builtin .math)) (.text "PI"))).1
  have hquiet := (chains_compose (Resolution.answer .bare (Evaluation.evaluator .bare)) [.names 0]
    [] [.statics, .beans false] (.get (.cls (.builtin .math)) (.text "PI"))).2 _ hsilent
  exact (congrFun hgroup _).trans (congrFun hquiet _)

end ExprLang
