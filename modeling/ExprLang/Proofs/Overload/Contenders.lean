import ExprLang.Overload
import Mathlib.Data.List.Forall2

/-! Which arguments fit the parameters of a method, one to one or gathered, and the methods among which
a call decides: those of its name that fit the arguments best. Methods that gather arguments contend
only where no other one fits. -/

namespace ExprLang

/-- How many arguments a score counts. -/
def Score.total (s : Score) : Nat := s.exact + s.assignable + s.coercible + s.asText

theorem Score.total_add (s : Score) (f : Fit) : (s.add f).total = s.total + 1 := by
  cases f <;> simp only [add, total] <;> omega

namespace Overload
variable {h : Heap} {types : List TypeRef} {args : List Value} {m : Method} {s s' : Score}

/-! ## Fitting -/

/-- A value fits a parameter. -/
def Fits (h : Heap) (t : TypeRef) (v : Value) : Prop := (fit? h t v).isSome = true

/-- Each argument fits the parameter at its place. -/
def FitsOneToOne (h : Heap) (m : Method) (args : List Value) : Prop :=
  List.Forall₂ (Fits h) m.params args

/-- Each argument fits its parameter, or what the last parameter gathers. -/
def FitsGathered (h : Heap) (m : Method) (args : List Value) : Prop :=
  ∃ component, m.gathers = some component ∧
    ∃ count, List.Forall₂ (Fits h) (m.fixed ++ List.replicate count component) args

theorem isSome_scoreAll_iff :
    (scoreAll h s types args).isSome = true ↔ List.Forall₂ (Fits h) types args := by
  induction types generalizing s args with
  | nil => cases args <;> simp [scoreAll]
  | cons t types ih =>
    cases args with
    | nil => simp [scoreAll]
    | cons v args =>
      rw [scoreAll, List.forall₂_cons, Fits]
      cases fit? h t v with
      | none => simp
      | some f => simpa using ih

theorem isSome_scoreFixed_iff : (scoreFixed h m args).isSome = true ↔ FitsOneToOne h m args :=
  isSome_scoreAll_iff

theorem isSome_scoreGathering_iff :
    (scoreGathering h m args).isSome = true ↔ FitsGathered h m args := by
  unfold scoreGathering FitsGathered
  cases m.gathers with
  | none => simp
  | some component =>
    simp only [Option.some.injEq, exists_eq_left']
    constructor
    · intro hscore
      split at hscore
      · cases hscore
      · exact ⟨_, isSome_scoreAll_iff.mp hscore⟩
    · rintro ⟨count, hfits⟩
      have hlength : m.fixed.length + count = args.length := by
        simpa using hfits.length_eq
      rw [if_neg (by omega), show args.length - m.fixed.length = count by omega]
      exact isSome_scoreAll_iff.mpr hfits

/-! ## Exact types -/

/-- The parameters of a method have exactly the types of the arguments, of which none is null. -/
def Exact (h : Heap) (m : Method) (args : List Value) : Prop :=
  args.map h.typeOf? = m.params.map some

theorem total_scoreAll (hs : scoreAll h s types args = some s') :
    s'.total = s.total + args.length := by
  induction types generalizing s args with
  | nil =>
    cases args with
    | nil =>
      cases hs
      rfl
    | cons => cases hs
  | cons t types ih =>
    cases args with
    | nil => cases hs
    | cons v args =>
      obtain ⟨f, -, hrest⟩ := Option.bind_eq_some_iff.mp hs
      rw [ih hrest, Score.total_add, List.length_cons]
      omega

theorem fit?_eq_exact_iff {t : TypeRef} {v : Value} :
    fit? h t v = some .exact ↔ h.typeOf? v = some t := by
  unfold fit?
  cases h.typeOf? v with
  | none => cases t.isPrimitive <;> simp
  | some u =>
    by_cases heq : t = u
    · simp [heq]
    · have hne : u ≠ t := Ne.symm heq
      simp only [beq_eq_false_iff_ne.mpr heq, Option.some.injEq, hne, iff_false]
      repeat' split
      all_goals simp_all

theorem scoreAll_of_exact (he : args.map h.typeOf? = types.map some) :
    scoreAll h s types args = some { s with exact := s.exact + args.length } := by
  induction types generalizing s args with
  | nil =>
    rw [List.map_nil, List.map_eq_nil_iff] at he
    subst he
    rfl
  | cons t types ih =>
    cases args with
    | nil => cases he
    | cons v args =>
      rw [List.map_cons, List.map_cons, List.cons.injEq] at he
      rw [scoreAll, fit?_eq_exact_iff.mpr he.1, Option.bind_some, ih he.2]
      simp only [Score.add, List.length_cons, Nat.add_assoc, Nat.add_comm 1]

/-- Each argument counts once at most as exact, and only arguments of exact types all do. -/
theorem exact_of_scoreAll (hs : scoreAll h s types args = some s') :
    s'.exact ≤ s.exact + args.length ∧
      (s'.exact = s.exact + args.length → args.map h.typeOf? = types.map some) := by
  induction types generalizing s args with
  | nil =>
    cases args with
    | nil =>
      cases hs
      exact ⟨Nat.le_refl _, fun _ => rfl⟩
    | cons => cases hs
  | cons t types ih =>
    cases args with
    | nil => cases hs
    | cons v args =>
      obtain ⟨f, hf, hrest⟩ := Option.bind_eq_some_iff.mp hs
      obtain ⟨hle, htypes⟩ := ih hrest
      rw [List.length_cons]
      cases f with
      | exact =>
        simp only [Score.add] at hle htypes
        refine ⟨by omega, fun hexact => ?_⟩
        rw [List.map_cons, List.map_cons, fit?_eq_exact_iff.mp hf, htypes (by omega)]
      | _ =>
        simp only [Score.add] at hle
        exact ⟨by omega, fun hexact => by omega⟩

end Overload

/-- Scores are in a total order. -/
instance : Std.TransCmp Score.compare :=
  inferInstanceAs (Std.TransCmp (compareLex (compareOn Score.exact)
    (compareLex (compareOn Score.assignable)
      (compareLex (compareOn Score.coercible) (compareOn Score.asText)))))

namespace Overload
variable {l : Lineage} {h : Heap} {owner name call : String} {methods : List Method}
  {args : List Value} {score : Method → Option Score} {entries : List (Score × Method)} {m : Method}
  {s : Score}

/-! ## The best scores -/

theorem isBest_iff : isBest entries s = true ↔ ∀ e ∈ entries, (e.1.compare s).isLE = true := by
  simp only [isBest, List.all_eq_true, bne_iff_ne, Ordering.isLE_iff_ne_gt, ne_eq]

/-- Among scores there is a best one. -/
theorem exists_best (hne : entries ≠ []) : ∃ e ∈ entries, isBest entries e.1 = true := by
  induction entries with
  | nil => exact absurd rfl hne
  | cons e rest ih =>
    simp only [isBest_iff] at ih ⊢
    by_cases hrest : rest = []
    · subst hrest
      refine ⟨e, List.mem_cons_self, ?_⟩
      rw [List.forall_mem_singleton]
      exact Std.ReflCmp.isLE_rfl
    · obtain ⟨b, hb, hbest⟩ := ih hrest
      cases hle : (e.1.compare b.1).isLE with
      | true =>
        exact ⟨b, List.mem_cons_of_mem e hb, List.forall_mem_cons.mpr ⟨hle, hbest⟩⟩
      | false =>
        have hback : (b.1.compare e.1).isLE = true := by
          have hswap : b.1.compare e.1 = (e.1.compare b.1).swap := Std.OrientedCmp.eq_swap
          rw [hswap]
          cases hcompare : e.1.compare b.1 <;> simp_all
        refine ⟨e, List.mem_cons_self, List.forall_mem_cons.mpr ⟨Std.ReflCmp.isLE_rfl, ?_⟩⟩
        intro f hf
        exact Std.TransCmp.isLE_trans (hbest f hf) hback

/-- The methods with a score, each with it. -/
def scored (score : Method → Option Score) (methods : List Method) : List (Score × Method) :=
  methods.filterMap fun m => (score m).map (·, m)

theorem mem_scored : (s, m) ∈ scored score methods ↔ m ∈ methods ∧ score m = some s := by
  simp only [scored, List.mem_filterMap, Option.map_eq_some_iff, Prod.mk.injEq]
  constructor
  · rintro ⟨n, hn, t, ht, rfl, rfl⟩
    exact ⟨hn, ht⟩
  · rintro ⟨hm, hs⟩
    exact ⟨m, hm, s, hs, rfl, rfl⟩

/-- The methods with the best score. -/
def tied (entries : List (Score × Method)) : List Method :=
  (entries.filter fun e => isBest entries e.1).map (·.2)

theorem mem_tied : m ∈ tied entries ↔ ∃ s, (s, m) ∈ entries ∧ isBest entries s = true := by
  simp only [tied, List.mem_map, List.mem_filter]
  constructor
  · rintro ⟨⟨s, n⟩, ⟨he, hbest⟩, rfl⟩
    exact ⟨s, he, hbest⟩
  · rintro ⟨s, he, hbest⟩
    exact ⟨(s, m), ⟨he, hbest⟩, rfl⟩

theorem tied_ne_nil (hne : entries ≠ []) : tied entries ≠ [] := by
  obtain ⟨⟨s, m⟩, he, hbest⟩ := exists_best hne
  exact List.ne_nil_of_mem (mem_tied.mpr ⟨s, he, hbest⟩)

/-- Of methods with scores one with the best score is chosen; a single one is as specific as
itself. -/
theorem best_of_ne_nil (hne : entries ≠ []) :
    best l entries call = match mostSpecific? l (tied entries) with
      | some m => .ok (some m)
      | none => .error (.ambiguousCall call) := by
  have htied := tied_ne_nil hne
  unfold best
  rw [← tied]
  split
  · next hnil => exact absurd hnil htied
  · next m hone =>
    rw [hone]
    simp [mostSpecific?]
  · rfl

/-! ## Who contends -/

/-- The methods of a name that take one argument for each parameter. -/
def fixedScores (h : Heap) (methods : List Method) (name : String) (args : List Value) :
    List (Score × Method) :=
  scored (scoreFixed h · args) (methods.filter (·.name == name))

/-- The methods of a name that gather their last arguments. -/
def gatheringScores (h : Heap) (methods : List Method) (name : String) (args : List Value) :
    List (Score × Method) :=
  scored (scoreGathering h · args) (methods.filter (·.name == name))

/-- The methods that are compared: those that gather arguments where there are no others. -/
def ranked (h : Heap) (methods : List Method) (name : String) (args : List Value) :
    List (Score × Method) :=
  if (fixedScores h methods name args).isEmpty then gatheringScores h methods name args
  else fixedScores h methods name args

theorem ranked_of_fixed (hne : fixedScores h methods name args ≠ []) :
    ranked h methods name args = fixedScores h methods name args := by
  rw [ranked, List.isEmpty_eq_false_iff.mpr hne, if_neg Bool.false_ne_true]

theorem ranked_of_gathering (hnil : fixedScores h methods name args = []) :
    ranked h methods name args = gatheringScores h methods name args := by
  rw [ranked, hnil, List.isEmpty_nil, if_pos rfl]

/-- The methods that fit a call best. -/
def contenders (h : Heap) (methods : List Method) (name : String) (args : List Value) :
    List Method :=
  tied (ranked h methods name args)

/-- Methods that gather arguments are tried where no other one has a score. -/
theorem find_of_named (hnamed : (methods.filter (·.name == name)).isEmpty = false) :
    find h owner methods name none args = (do
      if let some m ← best h.lineage (fixedScores h methods name args)
        (callText h owner name args) then return m
      match ← best h.lineage (gatheringScores h methods name args)
        (callText h owner name args) with
      | some m => pure m
      | none => throw (.noOverload (callText h owner name args))) := by
  simp only [find, hnamed]
  rfl

/-- Without given types a call is decided among its contenders. -/
theorem find_eq_choice : find h owner methods name none args =
    if (methods.filter (·.name == name)).isEmpty then .error (.noMember owner name)
    else if (ranked h methods name args).isEmpty then
      .error (.noOverload (callText h owner name args))
    else match mostSpecific? h.lineage (contenders h methods name args) with
      | some m => .ok m
      | none => .error (.ambiguousCall (callText h owner name args)) := by
  cases hnamed : (methods.filter (·.name == name)).isEmpty with
  | true =>
    simp only [find, hnamed]
    rfl
  | false =>
    rw [find_of_named hnamed, contenders, if_neg Bool.false_ne_true]
    by_cases hfixed : fixedScores h methods name args = []
    · rw [ranked_of_gathering hfixed, hfixed]
      by_cases hgathering : gatheringScores h methods name args = []
      · rw [hgathering]
        rfl
      · rw [best_of_ne_nil hgathering, List.isEmpty_eq_false_iff.mpr hgathering]
        cases mostSpecific? h.lineage (tied (gatheringScores h methods name args)) <;> rfl
    · rw [ranked_of_fixed hfixed, best_of_ne_nil hfixed, List.isEmpty_eq_false_iff.mpr hfixed]
      cases mostSpecific? h.lineage (tied (fixedScores h methods name args)) <;> rfl

/-- A method contends by its score for one argument for each parameter, or by the one for gathered
arguments where no method has the former. -/
theorem mem_ranked (hm : (s, m) ∈ ranked h methods name args) :
    m ∈ methods.filter (·.name == name) ∧ (scoreFixed h m args = some s ∨
      fixedScores h methods name args = [] ∧ scoreGathering h m args = some s) := by
  by_cases hfixed : fixedScores h methods name args = []
  · rw [ranked_of_gathering hfixed] at hm
    obtain ⟨hnamed, hscore⟩ := mem_scored.mp hm
    exact ⟨hnamed, .inr ⟨hfixed, hscore⟩⟩
  · rw [ranked_of_fixed hfixed] at hm
    obtain ⟨hnamed, hscore⟩ := mem_scored.mp hm
    exact ⟨hnamed, .inl hscore⟩

theorem mem_of_mem_contenders (hm : m ∈ contenders h methods name args) : m ∈ methods := by
  obtain ⟨s, hranked, -⟩ := mem_tied.mp hm
  exact (List.mem_filter.mp (mem_ranked hranked).1).1

/-- Where methods contend, the most specific one is called. -/
theorem find_of_contenders_ne_nil (hne : contenders h methods name args ≠ []) :
    find h owner methods name none args =
      match mostSpecific? h.lineage (contenders h methods name args) with
      | some m => .ok m
      | none => .error (.ambiguousCall (callText h owner name args)) := by
  obtain ⟨m, hm⟩ := List.exists_mem_of_ne_nil _ hne
  obtain ⟨s, hranked, -⟩ := mem_tied.mp hm
  have hnamed := List.isEmpty_eq_false_iff.mpr (List.ne_nil_of_mem (mem_ranked hranked).1)
  rw [find_eq_choice, hnamed, List.isEmpty_eq_false_iff.mpr (List.ne_nil_of_mem hranked)]
  rfl

/-- A call chooses a method where that is the first contender that is as specific as the others. -/
theorem find_eq_ok_iff : find h owner methods name none args = .ok m ↔
    mostSpecific? h.lineage (contenders h methods name args) = some m := by
  constructor
  · intro hfind
    rw [find_eq_choice] at hfind
    split at hfind
    · cases hfind
    · split at hfind
      · cases hfind
      · split at hfind
        · next hchosen => rwa [Except.ok.inj hfind] at hchosen
        · cases hfind
  · intro hchosen
    have hne := List.ne_nil_of_mem (List.mem_of_find?_eq_some hchosen)
    rw [find_of_contenders_ne_nil hne, hchosen]

end Overload

end ExprLang
