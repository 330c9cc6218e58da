import ExprLang.Proofs.Builtin.Conforming
import ExprLang.Proofs.Evaluation.ReadBack
import ExprLang.Proofs.Evaluation.TrackedRun
import ExprLang.Proofs.Heap.Change

/-! What can be asked of expressions, of method expressions and of lambdas, and what becomes of arrays
meanwhile. -/

namespace ExprLang

/-- What can be asked of an expression, of a method expression or of a lambda. -/
inductive Operation : Type → Type where
  | read (e : ValueExpr) : Operation Value
  | readAs (e : ValueExpr) (t : TypeRef) : Operation Value
  | write (e : ValueExpr) (v : Value) : Operation Unit
  | typeOf (e : ValueExpr) : Operation (Option TypeRef)
  | isReadOnly (e : ValueExpr) : Operation Bool
  | invoke (m : MethodExpr) (args : List Value) : Operation Value
  | describe (m : MethodExpr) : Operation (Option MethodInfo)
  | call (f : Closure) (args : List Value) : Operation Value

namespace Operation

variable {α : Type} {R : Regime} {m : Memory}

def perform (host : Host) (handle : Handler) : {α : Type} → Operation α → Action α
  | _, read e => e.read host handle
  | _, readAs e t => e.readAs host handle t
  | _, write e v => e.write handle v
  | _, typeOf e => e.type? handle
  | _, isReadOnly e => e.isReadOnly handle
  | _, invoke m args => m.invoke host handle args
  | _, describe m => m.info handle
  | _, call f args => f.invoke handle args

/-- All that the operation is given is grounded. -/
def Grounded (m : Memory) : {α : Type} → Operation α → Prop
  | _, read e => e.Grounded m.kinds
  | _, readAs e _ => e.Grounded m.kinds
  | _, write e v => e.Grounded m.kinds ∧ m.Knows v
  | _, typeOf e => e.Grounded m.kinds
  | _, isReadOnly e => e.Grounded m.kinds
  | _, invoke x args => x.Grounded m.kinds ∧ m.KnowsAll args
  | _, describe x => x.Grounded m.kinds
  | _, call f args => f.Grounded m.kinds ∧ m.KnowsAll args

/-- The values that an operation gives. -/
def values : {α : Type} → Operation α → α → List Value
  | _, read _, v => [v]
  | _, readAs _ _, v => [v]
  | _, write _ _, _ => []
  | _, typeOf _, _ => []
  | _, isReadOnly _, _ => []
  | _, invoke _ _, v => [v]
  | _, describe _, _ => []
  | _, call _ _, v => [v]

theorem perform_tracks {handle : Handler} (hs : R.Sound handle) {o : Operation α}
    (ho : o.Grounded m) :
    R.Tracks m (o.perform R.host handle) fun m a => m.KnowsAll (o.values a) := by
  have value {x : Action Value} (h : R.Tracks m x Memory.Knows) :
      R.Tracks m x fun m a => m.KnowsAll [a] := h.imp fun _ _ _ => List.forall_mem_singleton.mpr
  have other {β : Type} {x : Action β} (h : R.Tracks m x Memory.Any) :
      R.Tracks m x fun m _ => m.KnowsAll [] := h.imp fun _ _ _ _ => nofun
  cases o with
  | read e => exact value (Regime.read_tracks hs ho)
  | readAs e t => exact value (Regime.readAs_tracks hs ho t)
  | write e v => exact other (Regime.write_tracks hs ho.1 ho.2)
  | typeOf e => exact other (Regime.type?_tracks hs ho)
  | isReadOnly e => exact other (Regime.isReadOnly_tracks hs ho)
  | invoke x args => exact value (Regime.methodExpr_invoke_tracks hs ho.1 ho.2)
  | describe x => exact other (Regime.methodExpr_info_tracks hs ho)
  | call f args => exact value (Regime.closure_tracks hs ho.1 ho.2)

/-- However an operation ends, known writes have led there. -/
theorem final_reached (hc : R.host.Conforms R.guarded) {depth : Nat} {o : Operation α} {w u : World}
    (ho : o.Grounded m) (hw : R.Standing m w)
    (h : (o.perform R.host (Evaluation.run R.host depth) w).final? = some u) :
    ∃ m', R.Reaches m m' ∧ R.Standing m' u := by
  have hends := perform_tracks ⟨hc, Evaluation.run_tracks hc depth⟩ ho m w .refl hw
  cases hrun : o.perform R.host (Evaluation.run R.host depth) w with
  | value a v =>
    rw [hrun] at h hends
    cases h
    obtain ⟨m', hm, hu, -⟩ := hends
    exact ⟨m', hm, hu⟩
  | fault e v =>
    rw [hrun] at h hends
    cases h
    exact hends
  | exhausted =>
    rw [hrun] at h
    cases h

/-- Every item of an array fits the type of its items after any operation, as it did before, also where
the operation fails. Code of the host leaves arrays alone. -/
theorem arrays_stay_typed {classes : Array HostClass}
    {custom : Nat → {α : Type} → Request α → Action α} {ro : Bool} {depth : Nat} {o : Operation α}
    {w u : World} (hhost : ∀ c ∈ classes, c.Conforms CellKind.isArray)
    (hw : Regime.Standing ⟨⟨.ofHost classes, custom⟩, ro, CellKind.isArray⟩ m w) (ho : o.Grounded m)
    (htyped : w.heap.ArraysTyped)
    (h : (o.perform ⟨.ofHost classes, custom⟩ (Evaluation.run ⟨.ofHost classes, custom⟩ depth)
      w).final? = some u) :
    u.heap.ArraysTyped ∧
      ∃ m', Regime.Standing ⟨⟨.ofHost classes, custom⟩, ro, CellKind.isArray⟩ m' u := by
  obtain ⟨m', hm, hu⟩ :=
    final_reached (R := ⟨⟨.ofHost classes, custom⟩, ro, CellKind.isArray⟩)
      (Host.conforms_ofHost hhost) ho hw h
  rw [hw.heap] at htyped
  refine ⟨?_, m', hu⟩
  rw [hu.heap]
  exact hm.arraysTyped htyped

/-! ### An array of integers -/

/-- One array of one integer. -/
def arrayMemory : Memory where
  kinds := [.array (.primitive .int)]
  heap := ⟨Host.bare.classes.lineage, #[.array (.primitive .int) [.int 1]]⟩
  grounded := .cons (.array (List.forall_mem_singleton.mpr (Value.grounded_of_isAtom rfl))) .nil

/-- A world in which the array is called `a`. -/
def arrayWorld : World where
  heap := arrayMemory.heap
  context := { Context.standard false false with stores := #[[("a", .array 0)]] }
  log := []

theorem arrayWorld_standing (guarded : CellKind → Bool) :
    Regime.Standing ⟨.bare, false, guarded⟩ arrayMemory arrayWorld where
  heap := rfl
  layout := rfl
  context := by
    refine ⟨nofun, fun i => ?_, nofun⟩
    cases i with
    | zero => exact List.forall_mem_singleton.mpr (Value.grounded_array rfl)
    | succ i => exact nofun
  fields := Host.bare_fields _

theorem arrayWorld_typed : arrayWorld.heap.ArraysTyped
  | 0 => List.forall_mem_singleton.mpr (Heap.takes_primitive rfl)
  | _ + 1 => nofun

/-- Stores the text "5" in the array. -/
def storeText : Operation Unit :=
  .write (.parsed "${a[0]}" (.path (.name "a") [Evaluation.indexing (.integer "0")]) .empty none)
    (.text "5")

/-- The text becomes a number before it is stored. -/
theorem text_stored_in_array : ∃ u,
    (storeText.perform .bare (Evaluation.run .bare 2) arrayWorld).final? = some u ∧
      u.heap.array 0 = (.primitive .int, [.int 5]) ∧ u.heap.ArraysTyped := by
  let w := { arrayWorld with log := [.before "${a[0]}"] }
  have ha : Evaluation.run .bare 1 (.eval .empty (.name "a")) w =
      .value (.array 0) (w.claimed .null (.text "a")) :=
    Evaluation.eval_bean rfl rfl rfl rfl rfl
  have hzero (w : World) :
      Evaluation.run .bare 1 (.eval .empty (.integer "0")) w = .value (.long 0) w := rfl
  have hassign := (Evaluation.assign_item (v := .text "5") rfl rfl ha (hzero _)).mpr
    ⟨rfl, rfl, .int 5, _, rfl, rfl, rfl⟩
  have hwrite : ∃ u, storeText.perform .bare (Evaluation.run .bare 2) arrayWorld = .value () u ∧
      u.heap.array 0 = (.primitive .int, [.int 5]) := by
    show ∃ u, bracketed _ _ arrayWorld = .value () u ∧ _
    rw [bracketed, Action.bind_value (show Action.notify _ arrayWorld = .value () w from rfl),
      Action.bind_value hassign]
    exact ⟨_, rfl, rfl⟩
  obtain ⟨u, hu, hitems⟩ := hwrite
  have hfinal : (storeText.perform .bare (Evaluation.run .bare 2) arrayWorld).final? = some u := by
    rw [hu]
    rfl
  have hhost : ∀ c ∈ (#[] : Array HostClass), c.Conforms CellKind.isArray := nofun
  have hstands := arrays_stay_typed hhost (arrayWorld_standing CellKind.isArray)
    (o := storeText) ⟨ValueExpr.grounded_parsed (Bound.grounded_mk nofun),
      Value.grounded_of_isAtom rfl⟩
    arrayWorld_typed hfinal
  exact ⟨u, hfinal, hitems, hstands.1⟩

end Operation

end ExprLang
