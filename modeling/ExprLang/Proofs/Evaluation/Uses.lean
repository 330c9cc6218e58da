import ExprLang.Proofs.Evaluation.Frame
import ExprLang.Proofs.Evaluation.Target

/-! The uses of a tree: it is read, written, called, or asked about, as the last part of a sequence or of a
path.

What comes first in a sequence runs before the target is written, called or described; the queries of types
and of permissions leave it out. A path may be split anywhere: with its first steps as the base of another
path it is used alike. Reading stops at null, and the other uses fail there, in the base as in the steps. -/

namespace ExprLang.Evaluation

open Outcome (Paired)

/-! ## What trees may be used for -/

/-- A task about a tree. -/
inductive Use : Type → Type where
  | read : Use Value
  | assign (v : Value) : Use Unit
  | typeOf : Use (Option TypeRef)
  | readOnly : Use Bool
  | invoke (types : Option (List TypeRef)) (args : List Value) : Use Value
  | info (types : Option (List TypeRef)) : Use (Option MethodInfo)

namespace Use

/-- The task of using a tree. -/
def on (b : Bound) (n : Node) : {α : Type} → Use α → Task α
  | _, read => .eval b n
  | _, assign v => .assign b n v
  | _, typeOf => .typeOf b n
  | _, readOnly => .readOnly b n
  | _, invoke types args => .invoke b n types args
  | _, info types => .info b n types

/-- The type or the permission of a target is queried. -/
def queries : {α : Type} → Use α → Bool
  | _, typeOf => true
  | _, readOnly => true
  | _, _ => false

end Use

variable {host : Host} {L : Layout → Prop} {depth : Nat} {b : Bound} {first second : Node} {w : World}

/-! ## Sequences -/

/-- A tree has a value, and its evaluation leaves the cells and the context as they were. -/
def Harmless (host : Host) (depth : Nat) (b : Bound) (n : Node) (w : World) : Prop :=
  ∃ v u, run host depth (.eval b n) w = .value v u ∧ w.Twin w.context u

/-- Where the first part is harmless, what goes on after it goes on as it would without it. -/
theorem after_harmless {α : Type} {x : Action α} (hx : Action.Steady L x) (hl : L w.context.layout)
    (h : Harmless host depth b first w) :
    Paired (World.Twin w.context) (x w) ((run host depth (.eval b first) >>= fun _ => x) w) := by
  obtain ⟨v, u, hfirst, hu⟩ := h
  rw [Action.bind_value hfirst]
  exact hx.twin hl hu

/-- The target of a sequence is looked for after its first part. -/
theorem denote_sequence :
    denote host (depth + 1) b (.sequence first second) =
      run host depth (.eval b first) >>= fun _ => denote host depth b second :=
  rfl

/-- An assignment to a tree writes to what the tree denotes, and the queries ask about the same. -/
structure Located (host : Host) (depth : Nat) (b : Bound) (n : Node) (w : World) : Prop where
  written (v : Value) : Paired (World.Twin w.context)
    ((denote host depth b n >>= fun d => d.2.write host (run host d.1) v) w)
    (run host depth (.assign b n v) w)
  permitted : Paired (World.Twin w.context) (run host depth (.readOnly b n) w)
    ((denote host depth b n >>= fun d => d.2.isReadOnly host (run host d.1)) w)
  typed {d : Nat} {base k : Value} {u : World}
    (hdenote : denote host depth b n w = .value (d, .property base k) u) :
    Paired (World.Twin w.context) (run host depth (.typeOf b n) w)
      (Resolution.type host (run host d) base k u)

theorem isReadOnly_steady (hr : host.Steady L) (d : Nat × Denoted) :
    Action.Steady L (d.2.isReadOnly host (run host d.1)) := by
  have hd := (hr.disciplined d.1).programmed
  cases d.2 with
  | name _ => exact Resolution.require_obeys hd _ _ _
  | property _ _ => exact Resolution.require_obeys hd _ _ _
  | _ => exact hd.pure _

/-- Where the first part of a sequence is harmless, the queries ask about what the sequence denotes, though
they leave that part out. -/
theorem sequence_located (hr : host.Steady L) (hl : L w.context.layout)
    (hn : w.context.listeners = []) (hsecond : Unsequenced w.context.isArgument b second)
    (h : Harmless host depth b first w) :
    Located host (depth + 1) b (.sequence first second) w where
  written v := assign_denoted hr hl hn v (.self w)
  permitted := by
    have hreadOnly : run host (depth + 1) (.readOnly b (.sequence first second)) w =
        run host depth (.readOnly b second) w := rfl
    rw [hreadOnly, readOnly_denoted hr hl hsecond (.self w), denote_sequence, bind_assoc]
    exact after_harmless
      (hr.discipline.bind (denote_steady hr depth b second) (isReadOnly_steady hr)) hl h
  typed {d base k u} hdenote := by
    have hpair := after_harmless (denote_steady hr depth b second) hl h
    rw [← denote_sequence, hdenote] at hpair
    generalize hfound : denote host depth b second w = o at hpair
    cases hpair with
    | value _ hu =>
      have htypeOf : run host (depth + 1) (.typeOf b (.sequence first second)) w =
          run host depth (.typeOf b second) w := rfl
      rw [htypeOf, typeOf_denoted hr hl hsecond (.self w) hfound]
      exact Action.Steady.twin
        (Resolution.require_obeys (hr.disciplined d).programmed _ _ _) hl hu

/-- A sequence is used by evaluating its first part and using the second one, at every depth and in every
world, unless its type or its permission is queried: such a query is one of the second part alone, as it
is before the first one runs. Where the first part is harmless that makes no difference, and then the
queries ask about the place that an assignment writes to. -/
theorem sequence_used (hr : host.Steady L) (depth : Nat) (b : Bound) (first second : Node) :
    (∀ {α : Type} (use : Use α), run host (depth + 1) (use.on b (.sequence first second)) =
      if use.queries then run host depth (use.on b second)
      else run host depth (.eval b first) >>= fun _ => run host depth (use.on b second)) ∧
    ∀ w : World, L w.context.layout → Harmless host depth b first w →
      (∀ {α : Type} (use : Use α),
        Paired (World.Twin w.context) (run host (depth + 1) (use.on b (.sequence first second)) w)
          ((run host depth (.eval b first) >>= fun _ => run host depth (use.on b second)) w)) ∧
      (w.context.listeners = [] → Unsequenced w.context.isArgument b second →
        Located host (depth + 1) b (.sequence first second) w) := by
  have hused {α : Type} (use : Use α) : run host (depth + 1) (use.on b (.sequence first second)) =
      if use.queries then run host depth (use.on b second)
      else run host depth (.eval b first) >>= fun _ => run host depth (use.on b second) := by
    cases use <;> rfl
  refine ⟨hused, fun w hl h => ⟨fun use => ?_, fun hn hsecond => sequence_located hr hl hn hsecond h⟩⟩
  rw [hused use]
  split
  · exact after_harmless (run_steady hr depth _) hl h
  · exact (hr.discipline.bind (run_steady hr depth _) fun _ => run_steady hr depth _).twin hl (.self w)

/-- `x = 5; x` where nothing is named `x`: the assignment defines the name, and then its type is known. The
query of types does not run the assignment, and finds no such name. -/
theorem defined_name_unknown :
    ∃ u u', (run .bare 8 (.eval .empty (.assign (.name "x") (.integer "5"))) >>= fun _ =>
        run .bare 8 (.typeOf .empty (.name "x"))) (World.fresh .bare .none) = .value (some .object) u ∧
      run .bare 9 (.typeOf .empty (.sequence (.assign (.name "x") (.integer "5")) (.name "x")))
        (World.fresh .bare .none) = .fault (.unresolvedName "x") u' :=
  ⟨_, _, rfl, rfl⟩

/-- `1; x`: the number is harmless. Queries are as after evaluating it, and ask about the place that an
assignment writes to. -/
theorem number_first_used :
    Harmless .bare 8 .empty (.integer "1") (World.fresh .bare .none) ∧
      Paired (World.Twin (World.fresh .bare .none).context)
        (run .bare 9 (.typeOf .empty (.sequence (.integer "1") (.name "x"))) (World.fresh .bare .none))
        ((run .bare 8 (.eval .empty (.integer "1")) >>= fun _ =>
          run .bare 8 (.typeOf .empty (.name "x"))) (World.fresh .bare .none)) ∧
      Located .bare 9 .empty (.sequence (.integer "1") (.name "x")) (World.fresh .bare .none) := by
  have h : Harmless .bare 8 .empty (.integer "1") (World.fresh .bare .none) :=
    ⟨.long 1, _, rfl, .self _⟩
  have hused := (sequence_used (Host.bare.steady_standard false) 8 .empty (.integer "1")
    (.name "x")).2 _ rfl h
  exact ⟨h, hused.1 .typeOf, hused.2 rfl (.name fun _ _ _ _ _ he => by cases he)⟩

end ExprLang.Evaluation

namespace ExprLang

variable {α β : Type}

/-! ## Outcomes up to the words of faults -/

/-- Outcomes that leave the same world: with the same value, or with faults of the same kind. -/
inductive Outcome.Likewise : Outcome α → Outcome α → Prop where
  | value (a : α) (w : World) : Likewise (.value a w) (.value a w)
  | fault {e e' : Fault} (w : World) : e.kind = e'.kind → Likewise (.fault e w) (.fault e' w)
  | exhausted : Likewise .exhausted .exhausted

namespace Outcome.Likewise

variable {o o' : Outcome α}

theorem refl (o : Outcome α) : Likewise o o := by
  cases o with
  | value a w => exact .value a w
  | fault e w => exact .fault w rfl
  | exhausted => exact .exhausted

theorem exhausted_iff (h : Likewise o o') : o = .exhausted ↔ o' = .exhausted := by
  cases h with
  | value a w => exact ⟨nofun, nofun⟩
  | fault w hk => exact ⟨nofun, nofun⟩
  | exhausted => exact .rfl

theorem bind {x y : Action α} {f g : α → Action β} {w : World} (h : Likewise (x w) (y w))
    (hfg : ∀ a u, Likewise (f a u) (g a u)) : Likewise ((x >>= f) w) ((y >>= g) w) := by
  generalize hx : x w = o, hy : y w = o' at h
  cases h with
  | value a u =>
    rw [Action.bind_value hx, Action.bind_value hy]
    exact hfg a u
  | fault u hk =>
    rw [Action.bind_fault hx, Action.bind_fault hy]
    exact .fault u hk
  | exhausted =>
    rw [Action.bind_exhausted hx, Action.bind_exhausted hy]
    exact .exhausted

end Outcome.Likewise

namespace Evaluation

open Outcome (Likewise)

variable {host : Host} {handle handle' : Handler} {b : Bound} {v : Value} {s t : List Step}

/-! ## Steps -/

theorem eq_null_of_isNull (hv : v.isNull = true) : v = .null := by
  cases v with
  | null => rfl
  | _ => cases hv

/-- Null leads nowhere else. -/
theorem walk_null (s : List Step) : walk host handle b .null s = pure .null := by
  cases s <;> rfl

/-- Steps are taken one part after the other; a part that leads to null is the end of all. -/
theorem walk_append (v : Value) (s t : List Step) :
    walk host handle b v (s ++ t) = walk host handle b v s >>= fun w => walk host handle b w t := by
  induction s generalizing v with
  | nil => exact (pure_bind _ _).symm
  | cons s rest ih =>
    simp only [List.cons_append, walk]
    cases hv : v.isNull with
    | true => rw [if_pos rfl, if_pos rfl, pure_bind, walk_null]
    | false =>
      simp only [Bool.false_eq_true, if_false, bind_assoc, ih]

theorem reach_append (v : Value) (s t : List Step) :
    reach host handle b v (s ++ t) = reach host handle b v s >>= fun w => reach host handle b w t := by
  induction s generalizing v with
  | nil => exact (pure_bind _ _).symm
  | cons s rest ih =>
    simp only [List.cons_append, reach, bind_assoc]
    refine bind_congr fun w => ?_
    cases w.isNull with
    | true => rfl
    | false => exact ih w

/-- Goes on with a value, or fails where it is null. -/
def unlessNull (e : Fault) (v : Value) : Action Value := if v.isNull then Action.fail e else pure v

/-- Steps of which none may lead to null end where a walk that stops at null does, if that is not null. -/
theorem reach_likewise (hv : v.isNull = false) (s : List Step) {e : Fault}
    (he : e.kind = .propertyNotFound) (w : World) :
    Likewise (reach host handle b v s w) ((walk host handle b v s >>= unlessNull e) w) := by
  induction s generalizing v w with
  | nil =>
    have hsame : (walk host handle b v [] >>= unlessNull e) = pure v := by
      rw [walk, pure_bind, unlessNull, hv]
      rfl
    rw [hsame]
    exact .refl _
  | cons s rest ih =>
    have hwalk : (walk host handle b v (s :: rest) >>= unlessNull e) =
        follow host handle b v s >>= fun x => walk host handle b x rest >>= unlessNull e := by
      simp only [walk, hv, Bool.false_eq_true, if_false, bind_assoc]
    rw [hwalk, reach]
    refine Likewise.bind (.refl _) fun x u => ?_
    cases hx : x.isNull with
    | true =>
      obtain rfl := eq_null_of_isNull hx
      rw [walk_null]
      exact .fault u he.symm
    | false => exact ih hx u

/-! ## Targets -/

/-- The value before the last of these steps, and that step, from the value of a tree that is evaluated
in this way. -/
def targetFrom (host : Host) (handle : Handler) (b : Bound) (base : Node) (steps : List Step)
    (x : Action Value) : Action (Value × Step) :=
  match steps.getLast? with
  | none => Action.fail .emptyPath
  | some last => do
    let v ← x
    if v.isNull then Action.fail (.nullBase (nameOf base))
    else
      let w ← reach host handle b v steps.dropLast
      pure (w, last)

/-- The last step of a path is found alike from the base and from behind some of the steps. -/
theorem targetFrom_append (base whole : Node) (s : List Step) (ht : t ≠ []) (x : Action Value)
    (w : World) :
    Likewise (targetFrom host handle b base (s ++ t) x w)
      (targetFrom host handle b whole t (x >>= fun v => walk host handle b v s) w) := by
  obtain ⟨before, last, rfl⟩ : ∃ before last, t = before ++ [last] :=
    ⟨t.dropLast, t.getLast ht, (List.dropLast_append_getLast ht).symm⟩
  have hlast : (s ++ (before ++ [last])).getLast? = some last := by
    rw [← List.append_assoc, List.getLast?_concat]
  have hbefore : (s ++ (before ++ [last])).dropLast = s ++ before := by
    rw [← List.append_assoc, List.dropLast_concat]
  simp only [targetFrom, hlast, hbefore, List.getLast?_concat, List.dropLast_concat, bind_assoc]
  refine Likewise.bind (.refl _) fun v u => ?_
  cases hv : v.isNull with
  | true =>
    obtain rfl := eq_null_of_isNull hv
    rw [walk_null]
    exact .fault u rfl
  | false =>
    -- The walk up to the split goes wherever the steps of which none may lead to null do.
    have hreach : (do
          let y ← reach host handle b v (s ++ before)
          pure (y, last)) =
        reach host handle b v s >>= fun y => reach host handle b y before >>= fun z => pure (z, last) := by
      rw [reach_append, bind_assoc]
    have hwalk : (walk host handle b v s >>= fun y =>
          if y.isNull then Action.fail (.nullBase (nameOf whole))
          else reach host handle b y before >>= fun z => pure (z, last)) =
        (walk host handle b v s >>= unlessNull (.nullBase (nameOf whole))) >>= fun y =>
          reach host handle b y before >>= fun z => pure (z, last) := by
      rw [bind_assoc]
      refine bind_congr fun y => ?_
      rw [unlessNull]
      cases y.isNull <;> rfl
    rw [hwalk]
    simp only [Bool.false_eq_true, if_false]
    rw [hreach]
    exact Likewise.bind (reach_likewise hv s rfl u) fun y w => .refl _

/-! ## Uses -/

namespace Use

/-- What is done with the last step of a path, from the value before it. -/
def onStep (host : Host) (handle : Handler) (b : Bound) :
    {α : Type} → Use α → Value → Step → Action α
  | _, read, base, last => follow host handle b base last
  | _, assign v, base, last =>
    if last.isCall then Action.fail .callResult
    else do
      let property ← selected handle b last.selector
      let w ← convertForWrite host handle base property v
      Resolution.set host handle base property w
  | _, typeOf, base, last =>
    if last.isCall then pure none
    else do
      let property ← selected handle b last.selector
      Resolution.type host handle base property
  | _, readOnly, base, last =>
    if last.isCall then pure true
    else do
      let property ← selected handle b last.selector
      Resolution.readOnly host handle base property
  | _, invoke types args, base, last => do
    let method ← selected handle b last.selector
    match last.args? with
    | some own => do
      let vs ← evalAll handle b own
      Resolution.invoke host handle base method none vs
    | none => Resolution.invoke host handle base method types args
  | _, info types, base, last =>
    if last.isCall then pure none
    else do
      let property ← selected handle b last.selector
      some <$> describeMethod host base property types

/-- The use of a path whose base is evaluated in this way. -/
def onPath (host : Host) (handle : Handler) (b : Bound) (base : Node) (steps : List Step)
    (x : Action Value) : {α : Type} → Use α → Action α
  | _, read => x >>= fun v => walk host handle b v steps
  | _, use => targetFrom host handle b base steps x >>= fun t => use.onStep host handle b t.1 t.2

end Use

theorem step_path (use : Use α) (base : Node) (steps : List Step) :
    step host handle (use.on b (.path base steps)) =
      use.onPath host handle b base steps (handle (.eval b base)) := by
  cases use <;> rfl

/-- A path is used alike from the base and from behind some of its steps. -/
theorem onPath_append (use : Use α) (base whole : Node) (s : List Step) (ht : t ≠ []) (x : Action Value)
    (w : World) :
    Likewise (use.onPath host handle b base (s ++ t) x w)
      (use.onPath host handle b whole t (x >>= fun v => walk host handle b v s) w) := by
  have htarget : Likewise (targetFrom host handle b base (s ++ t) x w)
      (targetFrom host handle b whole t (x >>= fun v => walk host handle b v s) w) :=
    targetFrom_append base whole s ht x w
  cases use with
  | read =>
    simp only [Use.onPath, bind_assoc, walk_append]
    exact .refl _
  | _ => exact htarget.bind fun t u => .refl _

section Lockstep
variable {L : Layout → Prop} {R : ∀ {α : Type}, Action α → Action α → Prop}
  (hd : Lockstep.Programmed host handle handle' L R)
include hd

theorem onStep_lockstep (use : Use α) (base : Value) (last : Step) :
    R (use.onStep host handle b base last) (use.onStep host handle' b base last) := by
  have hselected := selected_lockstep hd b last.selector
  cases use with
  | read => exact follow_lockstep hd b base last
  | assign v =>
    exact hd.ite (hd.fail _) <| hd.bind hselected fun _ =>
      hd.bind (convertForWrite_lockstep hd _ _ v) fun _ => Resolution.require_lockstep hd _ _ _
  | typeOf =>
    exact hd.ite (hd.pure _) <| hd.bind hselected fun _ => Resolution.require_lockstep hd _ _ _
  | readOnly =>
    exact hd.ite (hd.pure _) <| hd.bind hselected fun _ => Resolution.require_lockstep hd _ _ _
  | invoke types args =>
    refine hd.bind hselected fun _ => ?_
    cases last.args? with
    | some own =>
      exact hd.bind (evalAll_lockstep hd b own) fun _ => Resolution.invoke_lockstep hd _ _ _ _
    | none => exact Resolution.invoke_lockstep hd _ _ _ _
  | info types =>
    exact hd.ite (hd.pure _) <| hd.bind hselected fun _ => hd.map _ (describeMethod_lockstep hd _ _ _)

theorem targetFrom_lockstep (base : Node) (steps : List Step) {x y : Action Value} (hxy : R x y) :
    R (targetFrom host handle b base steps x) (targetFrom host handle' b base steps y) := by
  unfold targetFrom
  cases steps.getLast? with
  | none => exact hd.fail _
  | some last =>
    exact hd.bind hxy fun v => hd.ite (hd.fail _) <|
      hd.bind (reach_lockstep hd b v _) fun _ => hd.pure _

/-- Handlers that go in lockstep use a path alike where they evaluate its base so. -/
theorem onPath_lockstep (use : Use α) (base : Node) (steps : List Step) {x y : Action Value}
    (hxy : R x y) :
    R (use.onPath host handle b base steps x) (use.onPath host handle' b base steps y) := by
  have htarget : R (targetFrom host handle b base steps x) (targetFrom host handle' b base steps y) :=
    targetFrom_lockstep hd base steps hxy
  cases use with
  | read => exact hd.bind hxy fun v => walk_lockstep hd b v steps
  | _ => exact hd.bind htarget fun t => onStep_lockstep hd _ t.1 t.2

end Lockstep

/-! ## Splitting a path -/

/-- Paths compose: whatever they are used for, the path of all steps and the path of the last ones, from
the path of the first ones, end likewise in every world, with the same effects: in the same value, or in
a fault of the same kind. The second form nests one level deeper. -/
theorem path_append_used (use : Use α) (b : Bound) (base : Node) (s : List Step) (ht : t ≠ [])
    (depth : Nat) (w : World) :
    (run host depth (use.on b (.path base (s ++ t))) w ≠ .exhausted →
      Likewise (run host depth (use.on b (.path base (s ++ t))) w)
        (run host (depth + 1) (use.on b (.path (.path base s) t)) w)) ∧
    (run host depth (use.on b (.path (.path base s) t)) w ≠ .exhausted →
      Likewise (run host depth (use.on b (.path base (s ++ t))) w)
        (run host depth (use.on b (.path (.path base s) t)) w)) := by
  cases depth with
  | zero => exact ⟨fun h => absurd rfl h, fun h => absurd rfl h⟩
  | succ depth =>
    -- Both forms are compared with the nested one in which all steps are taken at the depth of the flat
    -- one.
    let level := use.onPath host (run host depth) b (.path base s) t
      (run host (depth + 1) (.eval b (.path base s)))
    have hflat : run host (depth + 1) (use.on b (.path base (s ++ t))) =
        use.onPath host (run host depth) b base (s ++ t) (run host depth (.eval b base)) :=
      step_path use base (s ++ t)
    have hnested (depth : Nat) : run host (depth + 1) (use.on b (.path (.path base s) t)) =
        use.onPath host (run host depth) b (.path base s) t (run host depth (.eval b (.path base s))) :=
      step_path use (.path base s) t
    have hlike : Likewise (run host (depth + 1) (use.on b (.path base (s ++ t))) w) (level w) := by
      rw [hflat]
      exact onPath_append use base (.path base s) s ht _ w
    have hdeeper : Extends level (run host (depth + 2) (use.on b (.path (.path base s) t))) := by
      rw [hnested]
      exact onPath_lockstep (extends_programmed (run_succ_extends depth)) use _ _ fun _ _ => rfl
    have hlevel : Extends (run host (depth + 1) (use.on b (.path (.path base s) t))) level := by
      rw [hnested]
      exact onPath_lockstep (extends_programmed fun _ _ _ => rfl) use _ _ (run_succ_extends depth _)
    constructor
    · intro h
      rw [hdeeper w fun he => h (hlike.exhausted_iff.mpr he)]
      exact hlike
    · intro h
      rw [← hlevel w h]
      exact hlike

/-- Writing to `[null][0].x`: the first index leads to null, where the flat path fails as one whose target
is out of reach, and the nested one as one whose base is null. -/
theorem null_step_likewise :
    let first : List Step := [⟨.index (.integer "0"), none⟩]
    let last : List Step := [⟨.field "x", none⟩]
    let w := World.fresh .bare .none
    last ≠ [] ∧
      run .bare 5 ((Use.assign .null).on .empty (.path (.list [.null]) (first ++ last))) w ≠ .exhausted ∧
      Likewise (run .bare 5 ((Use.assign .null).on .empty (.path (.list [.null]) (first ++ last))) w)
        (run .bare 6 ((Use.assign .null).on .empty (.path (.path (.list [.null]) first) last)) w) := by
  intro first last w
  have hfinished : run .bare 5
      ((Use.assign .null).on .empty (.path (.list [.null]) (first ++ last))) w ≠ .exhausted := by
    obtain ⟨u, hu⟩ : ∃ u, run .bare 5
        ((Use.assign .null).on .empty (.path (.list [.null]) (first ++ last))) w =
          .fault (.nullStep "[integer literal]") u := ⟨_, rfl⟩
    rw [hu]
    nofun
  exact ⟨List.cons_ne_nil _ _, hfinished, (path_append_used (Use.assign .null) .empty (.list [.null])
    first (List.cons_ne_nil _ _) 5 w).1 hfinished⟩

end Evaluation

end ExprLang
