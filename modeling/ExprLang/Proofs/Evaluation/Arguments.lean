import ExprLang.Proofs.Resolution.Claimed
import ExprLang.Proofs.Value.Conversion
import Mathlib.Data.List.Forall2

/-! What the code of a method is given for the arguments of a call. -/

namespace ExprLang

open Action (bind_value bind_fault)

/-! ## Conversions that no resolver claims -/

/-- A later world with the same chain, in which values have the types that they had. -/
structure World.Follows (w u : World) : Prop where
  layout : u.context.layout = w.context.layout
  heap : w.heap.Retains u.heap

namespace World
variable {w u v : World}

theorem Follows.refl (w : World) : w.Follows w := ⟨rfl, .refl _⟩

theorem Follows.trans (hu : w.Follows u) (hv : u.Follows v) : w.Follows v :=
  ⟨hv.layout.trans hu.layout, hu.heap.trans hv.heap⟩

theorem follows_flagged (w : World) (b : Bool) : w.Follows (w.flagged b) := ⟨rfl, .refl _⟩

end World

/-- The host's own resolvers have nothing to say to conversions. -/
def Host.IgnoresConversions (host : Host) : Prop :=
  ∀ i v t w, w.context.resolved = false →
    ∃ a u, host.custom i (.convert v t) w = .value a u ∧ u.context.resolved = false ∧ w.Follows u

namespace Conversion

/-- The resolvers of a chain may look at a conversion, and may fail, but none claims it. -/
def Unclaimed (host : Host) (l : Layout) : Prop :=
  ∀ v t w, w.context.layout = l →
    ∃ u, (askChain (answer host) (.convert v t) w).final? = some u ∧
      u.context.resolved = false ∧ w.Follows u

/-- The resolvers of a chain have nothing to say to a conversion. -/
def Ignored (host : Host) (l : Layout) : Prop :=
  ∀ v t w, w.context.layout = l →
    ∃ a u, askChain (answer host) (.convert v t) w = .value a u ∧
      u.context.resolved = false ∧ w.Follows u

variable {host : Host} {l : Layout} {v a : Value} {t : TypeRef} {w u : World} {e : Fault}

theorem Ignored.unclaimed (h : Ignored host l) : Unclaimed host l := fun v t w hw => by
  obtain ⟨a, u, hr, hu⟩ := h v t w hw
  exact ⟨u, by rw [hr]; rfl, hu⟩

mutual

theorem ask_ignored (h : host.IgnoresConversions) (v : Value) (t : TypeRef) :
    ∀ (r : Resolver) (w : World), w.context.resolved = false →
      ∃ a u, r.ask (answer host) (.convert v t) w = .value a u ∧ u.context.resolved = false ∧
        w.Follows u
  | .group members, w, hw => by
    rw [Resolver.ask]
    obtain ⟨a, u, hr, hflag, hu⟩ := askAll_ignored h v t members (w.flagged false) rfl
    exact ⟨a, u, hr, hflag, (World.follows_flagged w false).trans hu⟩
  | .custom i, w, hw => by
    rw [Resolver.ask]
    · exact h i v t w hw
    · rintro _ ⟨⟩
  | .names _, w, hw | .statics, w, hw | .maps _, w, hw | .lists _, w, hw | .arrays _, w, hw
  | .records, w, hw | .beans _, w, hw => by
    rw [Resolver.ask]
    · exact ⟨.null, w, rfl, hw, .refl w⟩
    · rintro _ ⟨⟩

theorem askAll_ignored (h : host.IgnoresConversions) (v : Value) (t : TypeRef) :
    ∀ (rs : List Resolver) (w : World), w.context.resolved = false →
      ∃ a u, askAll (answer host) rs (.convert v t) w = .value a u ∧
        u.context.resolved = false ∧ w.Follows u
  | [], w, hw => ⟨.null, w, by rw [askAll]; rfl, hw, .refl w⟩
  | r :: rs, w, hw => by
    obtain ⟨a, x, hr, hflag, hx⟩ := ask_ignored h v t r w hw
    obtain ⟨b, u, hrs, hu⟩ := askAll_ignored h v t rs x hflag
    exact ⟨b, u, by rw [askAll_cons_declined hr hflag, hrs], hu.1, hx.trans hu.2⟩

end

theorem ignored_of_host (h : host.IgnoresConversions) (l : Layout) : Ignored host l := by
  intro v t w _
  obtain ⟨a, u, hr, hflag, hu⟩ :=
    askAll_ignored h v t w.context.layout.resolvers (w.flagged false) rfl
  exact ⟨a, u, by rw [askChain_apply, hr], hflag, (World.follows_flagged w false).trans hu⟩

theorem bare_ignoresConversions : Host.bare.IgnoresConversions := fun _ _ _ w hw =>
  ⟨.null, w, rfl, hw, .refl w⟩

theorem setResolved_apply (b : Bool) (w : World) :
    Action.setResolved b w = .value () (w.flagged b) := rfl

theorem convert_value
    (h : askChain (answer host) (.convert v t) (w.flagged false) = .value a u)
    (hu : u.context.resolved = false) :
    convert host v t w =
      Action.ofExcept (Coercion.toType u.heap t v) (u.flagged w.context.resolved) := by
  have hr : Action.attempt (askChain (answer host) (.convert v t)) (w.flagged false) =
      .value (.ok a) u := by
    simp only [Action.attempt, h]
  rw [convert, bind_value (Action.isResolved_apply w), bind_value (setResolved_apply false w),
    bind_value hr, bind_value (Action.isResolved_apply u), bind_value (setResolved_apply _ u), hu]
  rfl

theorem convert_fault
    (h : askChain (answer host) (.convert v t) (w.flagged false) = .fault e u) :
    convert host v t w = .fault e (u.flagged w.context.resolved) := by
  have hr : Action.attempt (askChain (answer host) (.convert v t)) (w.flagged false) =
      .value (.error e) u := by
    simp only [Action.attempt, h]
  rw [convert, bind_value (Action.isResolved_apply w), bind_value (setResolved_apply false w),
    bind_value hr, bind_value (Action.isResolved_apply u), bind_value (setResolved_apply _ u)]
  rfl

/-- A conversion that no resolver claims fails, or follows the rules of coercion. -/
theorem convert_cases (h : Unclaimed host w.context.layout) (v : Value) (t : TypeRef) :
    ∃ u, w.Follows u ∧ ((∃ e, convert host v t w = .fault e u) ∨
      ∃ r, convert host v t w = .value r u ∧ Coercion.toType u.heap t v = .ok r) := by
  obtain ⟨u, hend, hflag, hu⟩ := h v t (w.flagged false) rfl
  refine ⟨u.flagged w.context.resolved,
    ((World.follows_flagged w false).trans hu).trans (World.follows_flagged u _), ?_⟩
  cases hr : askChain (answer host) (.convert v t) (w.flagged false) with
  | exhausted => rw [hr] at hend; cases hend
  | fault e x =>
    rw [hr] at hend
    cases hend
    exact .inl ⟨e, convert_fault hr⟩
  | value a x =>
    rw [hr] at hend
    cases hend
    rw [convert_value hr hflag]
    cases ht : Coercion.toType u.heap t v with
    | error e => exact .inl ⟨e, rfl⟩
    | ok r => exact .inr ⟨r, rfl, ht⟩

theorem convert_ignored (h : Ignored host w.context.layout) (v : Value) (t : TypeRef) :
    ∃ u, w.Follows u ∧
      convert host v t w = Action.ofExcept (Coercion.toType u.heap t v) u := by
  obtain ⟨a, u, hr, hflag, hu⟩ := h v t (w.flagged false) rfl
  refine ⟨u.flagged w.context.resolved,
    ((World.follows_flagged w false).trans hu).trans (World.follows_flagged u _), ?_⟩
  rw [convert_value hr hflag, World.flagged_heap]

/-- Where resolvers have nothing to say, a value converts just where it has a counterpart. -/
theorem convert_value_iff (h : Ignored host w.context.layout) (hv : v.LivesIn w.heap) :
    (∃ r u, convert host v t w = .value r u) ↔ Coercion.fits w.heap t v = true := by
  obtain ⟨u, hu, hr⟩ := convert_ignored h v t
  rw [hr, ← Coercion.fits_retained hu.heap hv, Coercion.fits]
  cases Coercion.toType u.heap t v with
  | ok r => exact iff_of_true ⟨r, u, rfl⟩ rfl
  | error e =>
    refine iff_of_false ?_ Bool.false_ne_true
    rintro ⟨_, _, hvalue⟩
    cases hvalue

theorem convert_follows (h : Unclaimed host w.context.layout) {r : Value}
    (hr : convert host v t w = .value r u) : w.Follows u := by
  obtain ⟨x, hx, ⟨e, he⟩ | ⟨s, hs, _⟩⟩ := convert_cases h v t
  · rw [he] at hr
    cases hr
  · rw [hs] at hr
    cases hr
    exact hx

end Conversion

/-! ## Lists of arguments -/

namespace Method
variable {host : Host} {w u : World} {args vs : List Value} {types : List TypeRef}

/-- A list of conversions fails, or gives what as many of the types as there are values take. -/
theorem convertAll_cases (h : Conversion.Unclaimed host w.context.layout)
    (ha : ∀ v ∈ args, v.LivesIn w.heap) (types : List TypeRef) :
    ∃ u, w.Follows u ∧ ((∃ e, convertAll host types args w = .fault e u) ∨
      ∃ vs, convertAll host types args w = .value vs u ∧ (∀ v ∈ vs, v.LivesIn u.heap) ∧
        List.Forall₂ u.heap.Takes (types.take args.length) vs) := by
  induction args generalizing types w with
  | nil =>
    refine ⟨w, .refl w, .inr ⟨[], ?_, by simp, by simp⟩⟩
    cases types <;> rfl
  | cons v args ih =>
    cases types with
    | nil => exact ⟨w, .refl w, .inr ⟨[], rfl, by simp, by simp⟩⟩
    | cons t types =>
      rw [convertAll]
      obtain ⟨x, hx, ⟨e, he⟩ | ⟨r, hr, ht⟩⟩ := Conversion.convert_cases h v t
      · exact ⟨x, hx, .inl ⟨e, bind_fault he⟩⟩
      rw [bind_value hr]
      have hargs : ∀ v ∈ args, v.LivesIn x.heap := fun v hv =>
        Heap.livesIn_retained hx.heap (ha v (List.mem_cons_of_mem _ hv))
      have hlive : r.LivesIn x.heap :=
        Coercion.livesIn_of_toType (Heap.livesIn_retained hx.heap (ha v List.mem_cons_self)) ht
      obtain ⟨u, hu, ⟨e, he⟩ | ⟨vs, hvs, hlives, htakes⟩⟩ := ih (hx.layout ▸ h) hargs types
      · exact ⟨u, hx.trans hu, .inl ⟨e, bind_fault he⟩⟩
      · refine ⟨u, hx.trans hu, .inr ⟨r :: vs, by rw [bind_value hvs]; rfl, ?_, .cons ?_ htakes⟩⟩
        · exact List.forall_mem_cons.mpr ⟨Heap.livesIn_retained hu.heap hlive, hlives⟩
        · exact (Heap.takes_retained hu.heap hlive).mpr (Coercion.toType_takes ht).1

theorem takes_all_retained {h k : Heap} (hk : h.Retains k) (hv : ∀ v ∈ vs, v.LivesIn h)
    (ht : List.Forall₂ h.Takes types vs) : List.Forall₂ k.Takes types vs := by
  induction ht with
  | nil => exact .nil
  | cons htake _ ih =>
    obtain ⟨hfirst, hrest⟩ := List.forall_mem_cons.mp hv
    exact .cons ((Heap.takes_retained hk hfirst).mpr htake) (ih hrest)

theorem convertAll_follows (h : Conversion.Unclaimed host w.context.layout)
    (ha : ∀ v ∈ args, v.LivesIn w.heap) (hvs : convertAll host types args w = .value vs u) :
    w.Follows u := by
  obtain ⟨x, hx, ⟨e, he⟩ | ⟨ws, hws, _⟩⟩ := convertAll_cases h ha types
  · rw [he] at hvs
    cases hvs
  · rw [hws] at hvs
    cases hvs
    exact hx

/-- Where resolvers have nothing to say, values convert just where all have counterparts. -/
theorem convertAll_value_iff (h : Conversion.Ignored host w.context.layout)
    (ha : ∀ v ∈ args, v.LivesIn w.heap) :
    (∃ vs u, convertAll host types args w = .value vs u) ↔
      ∀ p ∈ types.zip args, Coercion.fits w.heap p.1 p.2 = true := by
  induction args generalizing types w with
  | nil => cases types <;> simp [convertAll]
  | cons v args ih =>
    cases types with
    | nil => simp [convertAll]
    | cons t types =>
      have hv : v.LivesIn w.heap := ha v List.mem_cons_self
      have hargs : ∀ x ∈ args, x.LivesIn w.heap := fun x hx => ha x (List.mem_cons_of_mem _ hx)
      -- What comes after the first conversion sees the same types of values.
      have hrest {r : Value} {x : World} (hr : Conversion.convert host v t w = .value r x) :
          (∃ vs u, convertAll host types args x = .value vs u) ↔
            ∀ p ∈ types.zip args, Coercion.fits w.heap p.1 p.2 = true := by
        have hx := Conversion.convert_follows h.unclaimed hr
        rw [ih (hx.layout ▸ h) fun y hy => Heap.livesIn_retained hx.heap (hargs y hy)]
        refine forall₂_congr fun p hp => ?_
        rw [Coercion.fits_retained hx.heap (hargs p.2 (List.of_mem_zip hp).2)]
      rw [convertAll, List.zip_cons_cons, List.forall_mem_cons,
        ← Conversion.convert_value_iff h hv]
      constructor
      · rintro ⟨vs, u, hvs⟩
        obtain ⟨r, x, hr, hvs⟩ := Action.bind_eq_value.mp hvs
        obtain ⟨ws, y, hws, _⟩ := Action.bind_eq_value.mp hvs
        exact ⟨⟨r, x, hr⟩, (hrest hr).mp ⟨ws, y, hws⟩⟩
      · rintro ⟨⟨r, x, hr⟩, hfits⟩
        obtain ⟨ws, y, hws⟩ := (hrest hr).mpr hfits
        exact ⟨r :: ws, y, by rw [bind_value hr, bind_value hws]; rfl⟩

/-! ## Calls -/

/-- The type of the arguments that a call gathers: a method that gathers arguments is still given an
array as it is. -/
def gathering? (h : Heap) (m : Method) (args : List Value) : Option TypeRef :=
  m.gathers.filter fun _ => !m.takesArray h args

/-- What the code of a method is given for these arguments. -/
def prepare (host : Host) (m : Method) (args : List Value) : Action (List Value) := do
  let h ← Action.heap
  match m.gathering? h args with
  | some component =>
    let fixed ← convertAll host m.fixed args
    let spare := args.drop m.fixed.length
    let rest ← convertAll host (spare.map fun _ => component) spare
    let gathered ← Action.build (·.newArray component rest)
    pure (fixed ++ [gathered])
  | none =>
    if args.length = m.params.length then convertAll host m.params args
    else Action.fail (.wrongCount (m.signature h.lineage) m.params.length args.length)

variable {m : Method} {component : TypeRef}

/-- A call prepares the arguments, and runs the code of the method on what that gives. -/
theorem invoke_eq (m : Method) (handle : Handler) (self : Value) (args : List Value) :
    m.invoke host handle self args = m.prepare host args >>= m.run host handle self := by
  funext w
  rw [invoke, prepare, bind_value (Action.heap_apply w), bind_assoc,
    bind_value (Action.heap_apply w), gathering?]
  cases m.gathers with
  | none =>
    dsimp only [Option.filter]
    split <;> rfl
  | some component =>
    cases m.takesArray w.heap args with
    | false =>
      simp only [Option.filter, Bool.not_false, if_true, bind_assoc, pure_bind]
    | true =>
      dsimp only [Option.filter, Bool.not_true]
      split <;> rfl

theorem gathers_of_gathering? {h : Heap} (hg : m.gathering? h args = some component) :
    m.gathers = some component :=
  (Option.filter_eq_some_iff.mp hg).1

/-- The array of the gathered arguments comes last. -/
theorem params_of_gathers (hg : m.gathers = some component) :
    m.params = m.fixed ++ [.array component] := by
  rw [params, hg]
  rfl

theorem prepare_gathering (hg : m.gathering? w.heap args = some component) :
    m.prepare host args w = (do
      let fixed ← convertAll host m.fixed args
      let spare := args.drop m.fixed.length
      let rest ← convertAll host (spare.map fun _ => component) spare
      let gathered ← Action.build (·.newArray component rest)
      pure (fixed ++ [gathered]) : Action (List Value)) w := by
  rw [prepare, bind_value (Action.heap_apply w), hg]

theorem prepare_counted (hg : m.gathering? w.heap args = none) :
    m.prepare host args w =
      (if args.length = m.params.length then convertAll host m.params args
        else Action.fail
          (.wrongCount (m.signature w.heap.lineage) m.params.length args.length)) w := by
  rw [prepare, bind_value (Action.heap_apply w), hg]

theorem build_newArray (component : TypeRef) (vs : List Value) (w : World) :
    ∃ a u, Action.build (·.newArray component vs) w = .value (.array a) u ∧ w.Follows u ∧
      u.heap.typeOf? (.array a) = some (.array component) := by
  refine ⟨w.heap.cells.size, { w with heap := (w.heap.newArray component vs).2 }, rfl,
    ⟨rfl, Heap.retains_newArray w.heap component vs⟩, ?_⟩
  simp [Heap.typeOf?, Heap.array, Heap.newArray, Heap.alloc]

/-- Arguments that are gathered: the code is given what the types of its parameters take, unless
there are too few for the parameters before the array. -/
theorem prepare_gathering_cases (h : Conversion.Unclaimed host w.context.layout)
    (ha : ∀ v ∈ args, v.LivesIn w.heap) (hg : m.gathering? w.heap args = some component) :
    (∃ e u, m.prepare host args w = .fault e u) ∨
      ∃ vs u, m.prepare host args w = .value vs u ∧
        (List.Forall₂ u.heap.Takes m.params vs ↔ m.fixed.length ≤ args.length) := by
  rw [prepare_gathering hg]
  obtain ⟨x, hx, ⟨e, he⟩ | ⟨vs, hvs, hlives, htakes⟩⟩ := convertAll_cases h ha m.fixed
  · exact .inl ⟨e, x, bind_fault he⟩
  rw [bind_value hvs]
  have hspare : ∀ v ∈ args.drop m.fixed.length, v.LivesIn x.heap := fun v hv =>
    Heap.livesIn_retained hx.heap (ha v (List.mem_of_mem_drop hv))
  obtain ⟨y, hy, ⟨e, he⟩ | ⟨rest, hrest, _⟩⟩ :=
    convertAll_cases (hx.layout ▸ h) hspare ((args.drop m.fixed.length).map fun _ => component)
  · exact .inl ⟨e, y, bind_fault he⟩
  obtain ⟨a, u, hbuild, hu, htype⟩ := build_newArray component rest y
  refine .inr ⟨vs ++ [.array a], u, ?_, ?_⟩
  · rw [bind_value hrest, bind_value hbuild]
    rfl
  rw [params_of_gathers (gathers_of_gathering? hg)]
  constructor
  · intro hall
    have hlength := hall.length_eq
    rw [List.length_append, List.length_append, ← htakes.length_eq, List.length_take] at hlength
    simp at hlength
    omega
  · intro hcount
    rw [List.take_of_length_le hcount] at htakes
    exact List.rel_append (takes_all_retained (hy.trans hu).heap hlives htakes)
      (.cons (Heap.takes_of_typeOf? htype) .nil)

theorem prepare_counted_cases (h : Conversion.Unclaimed host w.context.layout)
    (ha : ∀ v ∈ args, v.LivesIn w.heap) (hg : m.gathering? w.heap args = none) :
    (∃ e u, m.prepare host args w = .fault e u) ∨
      ∃ vs u, m.prepare host args w = .value vs u ∧ args.length = m.params.length ∧
        List.Forall₂ u.heap.Takes m.params vs := by
  rw [prepare_counted hg]
  split
  · next hcount =>
    obtain ⟨u, _, ⟨e, he⟩ | ⟨vs, hvs, _, htakes⟩⟩ := convertAll_cases h ha m.params
    · exact .inl ⟨e, u, he⟩
    · rw [hcount, List.take_length] at htakes
      exact .inr ⟨vs, u, hvs, hcount, htakes⟩
  · exact .inl ⟨_, w, rfl⟩

/-- A call fails before it reaches the code of the method, or it runs the code on what the arguments
became. These are then as many values as parameters, and each is what its parameter takes, unless a
method that gathers arguments got too few for the parameters before the array. -/
theorem prepared_iff_enough (m : Method) (handle : Handler) (self : Value)
    (h : Conversion.Unclaimed host w.context.layout) (ha : ∀ v ∈ args, v.LivesIn w.heap) :
    m.invoke host handle self args w = (m.prepare host args >>= m.run host handle self) w ∧
      ((∃ e u, m.prepare host args w = .fault e u) ∨
        ∃ vs u, m.prepare host args w = .value vs u ∧
          (List.Forall₂ u.heap.Takes m.params vs ↔
            (m.gathers.isSome = true → m.fixed.length ≤ args.length))) := by
  refine ⟨congrFun (invoke_eq m handle self args) w, ?_⟩
  cases hg : m.gathering? w.heap args with
  | some component =>
    have hsome : m.gathers.isSome = true := by rw [gathers_of_gathering? hg]; rfl
    simpa only [hsome, true_imp_iff] using prepare_gathering_cases h ha hg
  | none =>
    obtain hfault | ⟨vs, u, hvs, hcount, htakes⟩ := prepare_counted_cases h ha hg
    · exact .inl hfault
    · refine .inr ⟨vs, u, hvs, iff_of_true htakes fun _ => ?_⟩
      rw [hcount, params, List.length_append]
      exact Nat.le_add_right _ _

/-- A method that joins texts: one, and as many other values as a call gives. It tells how many
arguments its code was given. -/
def joining : Method where
  name := "join"
  fixed := [.string]
  gathers := some .object
  body := some fun _ args => .succeed (.int (Int32.ofNat args.length))
  id := ⟨.host 0, false, 0⟩

theorem joining_prepared : ∃ vs u,
    joining.prepare .bare [.text "a", .int 1] (.fresh .bare .none) = .value vs u ∧
      List.Forall₂ u.heap.Takes joining.params vs := by
  have hlives : ∀ v ∈ [Value.text "a", .int 1], v.LivesIn (World.fresh .bare .none).heap := by
    simp [Value.LivesIn, Value.typeCell?]
  have hunclaimed :=
    (Conversion.ignored_of_host Conversion.bare_ignoresConversions
      (World.fresh .bare .none).context.layout).unclaimed
  obtain ⟨-, ⟨e, u, he⟩ | ⟨vs, u, hvs, htakes⟩⟩ := prepared_iff_enough joining
    (Evaluation.evaluator .bare) .null hunclaimed hlives
  · cases he
  · exact ⟨vs, u, hvs, htakes.mpr fun _ => by decide⟩

/-- With its parameter types given, the method is found also for a call without arguments, and its
code is run on one argument where it has two parameters. -/
theorem pinned_call_misaligned :
    Conversion.Unclaimed .bare (World.fresh .bare .none).context.layout ∧
      Overload.find (World.fresh .bare .none).heap "T" [joining] "join"
        (some [.string, .array .object]) [] = .ok joining ∧
      joining.params.length = 2 ∧
      (∃ vs u, joining.prepare .bare [] (.fresh .bare .none) = .value vs u ∧
        vs.length = 1 ∧ ¬List.Forall₂ u.heap.Takes joining.params vs) ∧
      ∃ u, joining.invoke .bare (Evaluation.evaluator .bare) .null [] (.fresh .bare .none) =
        .value (.int 1) u := by
  refine ⟨(Conversion.ignored_of_host Conversion.bare_ignoresConversions _).unclaimed, rfl, rfl,
    ⟨_, _, rfl, rfl, fun h => ?_⟩, _, rfl⟩
  cases h.length_eq

end Method

end ExprLang
