import ExprLang.Proofs.Declared
import ExprLang.Proofs.Evaluation.Arguments
import ExprLang.Proofs.Lineage.Stores

/-! The method that is selected for arguments is one that can be called with them, but for objects
where scalars are stored. -/

namespace ExprLang

/-- An object can be stored as a scalar that one of its ancestors describes. -/
theorem Lineage.assignable_of_ancestor {l : Lineage} {t : TypeRef} {c d : ClassId}
    (ht : t.isScalar = true) (hd : d ∈ l.ancestors c) (hs : l.asType d = t) :
    l.assignable t (.named c) = true := by
  have hany : (l.ancestors c).any (fun k => l.asType k == t) = true :=
    List.any_eq_true.mpr ⟨d, hd, beq_iff_eq.mpr hs⟩
  cases t <;> cases ht <;> simp only [assignable, accepts, hany] <;> rfl

/-- Only arrays are stored where arrays are declared. -/
theorem array_of_assignable {h : Heap} (hl : h.lineage.Proper) {component t : TypeRef} {v : Value}
    (hv : h.typeOf? v = some t) (ha : h.lineage.assignable (.array component) t = true) :
    ∃ a, v = .array a ∧
      h.lineage.assignable (.array component) (.array (h.array a).1) = true := by
  cases v with
  | array a =>
    cases hv
    exact ⟨a, rfl, ha⟩
  | object a =>
    cases hv
    simp [Lineage.assignable, Lineage.accepts, Lineage.asType_ne_array hl] at ha
  | _ => cases hv <;> simp [Lineage.assignable, Lineage.accepts] at ha

namespace Overload
variable {h : Heap} {m : Method} {s s' : Score} {types : List TypeRef} {args : List Value}

theorem fit?_null (h : Heap) (t : TypeRef) : (fit? h t .null).isSome = true := rfl

theorem fit?_of_assignable {t u : TypeRef} {v : Value} (hv : h.typeOf? v = some u)
    (ha : h.lineage.assignable t u = true) : (fit? h t v).isSome = true := by
  simp only [fit?, hv, if_pos ha]
  split <;> rfl

/-- Arrays are converted from nothing else: what fits is null, or an array that can be stored as it
is. -/
theorem null_or_array_of_fit? (hl : h.lineage.Proper) {component : TypeRef} {v : Value}
    (hf : (fit? h (.array component) v).isSome = true) :
    v = .null ∨ ∃ a, v = .array a ∧
      h.lineage.assignable (.array component) (.array (h.array a).1) = true := by
  cases hv : h.typeOf? v with
  | none => exact .inl (by cases v <;> first | rfl | cases hv)
  | some t =>
    have ha : h.lineage.assignable (.array component) t = true := by
      simp only [fit?, hv] at hf
      split at hf
      · next he => exact eq_of_beq he ▸ Heap.assignable_refl _ _
      · split at hf
        · next ha => exact ha
        · next ha =>
          simp [Coercion.fits, Coercion.toType, Coercion.toReference, hv, ha, Except.toBool] at hf
    exact .inr (array_of_assignable hl hv ha)

/-- Every argument of a call that has a score fits its type, and there is one for each. -/
theorem fits_of_scoreAll (hs : scoreAll h s types args = some s') :
    types.length = args.length ∧ ∀ p ∈ types.zip args, (fit? h p.1 p.2).isSome = true := by
  have hfits := isSome_scoreAll_iff.mp (Option.isSome_of_eq_some hs)
  exact ⟨hfits.length_eq, fun p hp => (List.forall₂_iff_zip.mp hfits).2 hp⟩

/-- What is selected for arguments has a score for them. -/
theorem scored_of_find {owner name : String} {methods : List Method}
    (hf : find h owner methods name none args = .ok m) :
    (∃ s, scoreFixed h m args = some s) ∨ ∃ s, scoreGathering h m args = some s := by
  obtain ⟨s, hm, -⟩ := mem_tied.mp (List.mem_of_find?_eq_some (find_eq_ok_iff.mp hf))
  rcases (mem_ranked hm).2 with hs | ⟨-, hs⟩
  · exact .inl ⟨s, hs⟩
  · exact .inr ⟨s, hs⟩

end Overload

namespace Method
variable {host : Host} {w : World} {h : Heap} {m : Method} {args : List Value}
  {component : TypeRef}

/-- The types that a call converts its arguments to. -/
def targets (h : Heap) (m : Method) (args : List Value) : List TypeRef :=
  match m.gathering? h args with
  | some component => m.fixed ++ (args.drop m.fixed.length).map fun _ => component
  | none => m.params

theorem zip_append_drop (types : List TypeRef) (f : Value → TypeRef) (args : List Value) :
    (types ++ (args.drop types.length).map f).zip args =
      types.zip args ++ ((args.drop types.length).map f).zip (args.drop types.length) := by
  induction types generalizing args with
  | nil => rfl
  | cons t types ih =>
    cases args with
    | nil => rfl
    | cons v args => exact congrArg ((t, v) :: ·) (ih args)

theorem forall_zip_concat {P : TypeRef × Value → Prop} {types : List TypeRef} {t : TypeRef}
    {vs : List Value} {v : Value} (hlength : types.length = vs.length) :
    (∀ p ∈ (types ++ [t]).zip (vs ++ [v]), P p) ↔ (∀ p ∈ types.zip vs, P p) ∧ P (t, v) := by
  rw [List.zip_append hlength, List.forall_mem_append]
  simp

theorem exists_concat {n : Nat} (h : args.length = n + 1) :
    ∃ vs v, args = vs ++ [v] ∧ n = vs.length := by
  obtain rfl | ⟨vs, v, rfl⟩ := List.eq_nil_or_concat args
  · cases h
  · exact ⟨vs, v, List.concat_eq_append, by simpa using h.symm⟩

theorem takesArray_concat {vs : List Value} {a : Address} (hg : m.gathers = some component)
    (hlength : m.fixed.length = vs.length) :
    m.takesArray h (vs ++ [.array a]) =
      h.lineage.assignable (.array component) (.array (h.array a).1) := by
  simp [takesArray, hg, params_of_gathers hg, hlength]

theorem array_of_takesArray (ht : m.takesArray h args = true) :
    ∃ component vs a, m.gathers = some component ∧ args = vs ++ [.array a] ∧
      m.fixed.length = vs.length := by
  unfold takesArray at ht
  split at ht
  · next component v hg hlast =>
    split at ht
    · next a =>
      obtain ⟨vs, rfl⟩ := List.getLast?_eq_some_iff.mp hlast
      refine ⟨component, vs, a, hg, rfl, ?_⟩
      simp [params_of_gathers hg] at ht
      exact ht.1.symm
    · cases ht
  · cases ht

theorem takesArray_of_gathering? (hg : m.gathers = some component)
    (hnone : m.gathering? h args = none) : m.takesArray h args = true := by
  simpa [gathering?, hg] using hnone

/-- A call that would gather just an array is given the array. -/
theorem fits_array (hg : m.gathers = some component) (ht : m.takesArray h args = true)
    {s : Score} (hs : Overload.scoreGathering h m args = some s) :
    args.length = m.params.length ∧
      ∀ p ∈ m.params.zip args, (Overload.fit? h p.1 p.2).isSome = true := by
  obtain ⟨_, vs, a, _, rfl, hlength⟩ := array_of_takesArray ht
  have hspare : (vs ++ [Value.array a]).length - m.fixed.length = 1 := by simp [hlength]
  have ha := (takesArray_concat hg hlength).symm.trans ht
  simp only [Overload.scoreGathering, hg, hspare] at hs
  split at hs
  · cases hs
  · rw [params_of_gathers hg, forall_zip_concat hlength]
    have hfits := (forall_zip_concat hlength).mp (Overload.fits_of_scoreAll hs).2
    exact ⟨by simp [hlength], hfits.1, Overload.fit?_of_assignable rfl ha⟩

/-- Where the parameters fit one by one and the last argument is gathered still, it is null. -/
theorem fits_component (hl : h.lineage.Proper) (hg : m.gathering? h args = some component)
    {s : Score} (hs : Overload.scoreFixed h m args = some s) :
    ∀ p ∈ (m.fixed ++ (args.drop m.fixed.length).map fun _ => component).zip args,
      (Overload.fit? h p.1 p.2).isSome = true := by
  have hgathers := gathers_of_gathering? hg
  obtain ⟨hcount, hfits⟩ := Overload.fits_of_scoreAll hs
  rw [params_of_gathers hgathers] at hcount hfits
  obtain ⟨vs, v, rfl, hlength⟩ :=
    exists_concat (hcount.symm.trans (by simp) : _ = m.fixed.length + 1)
  obtain ⟨hrest, hlast⟩ := (forall_zip_concat hlength).mp hfits
  have hdrop : ((vs ++ [v]).drop m.fixed.length).map (fun _ => component) = [component] := by
    simp [hlength]
  rw [hdrop, forall_zip_concat hlength]
  refine ⟨hrest, ?_⟩
  obtain rfl | ⟨a, rfl, ha⟩ := Overload.null_or_array_of_fit? hl hlast
  · exact Overload.fit?_null h component
  · have hnot := (Option.filter_eq_some_iff.mp hg).2
    rw [takesArray_concat hgathers hlength, ha] at hnot
    cases hnot

/-- The arguments of a selected method fit the types that they are converted to. -/
theorem fits_targets (hl : h.lineage.Proper) {owner name : String} {methods : List Method}
    (hf : Overload.find h owner methods name none args = .ok m) :
    (m.gathering? h args = none → args.length = m.params.length) ∧
      ∀ p ∈ (m.targets h args).zip args, (Overload.fit? h p.1 p.2).isSome = true := by
  have hscore := Overload.scored_of_find hf
  unfold targets
  cases hg : m.gathering? h args with
  | none =>
    obtain ⟨s, hs⟩ | ⟨s, hs⟩ := hscore
    · obtain ⟨hlength, hfits⟩ := Overload.fits_of_scoreAll hs
      exact ⟨fun _ => hlength.symm, hfits⟩
    · cases hgathers : m.gathers with
      | none => simp only [Overload.scoreGathering, hgathers] at hs; cases hs
      | some component =>
        obtain ⟨hlength, hfits⟩ := fits_array hgathers (takesArray_of_gathering? hgathers hg) hs
        exact ⟨fun _ => hlength, hfits⟩
  | some component =>
    refine ⟨nofun, ?_⟩
    obtain ⟨s, hs⟩ | ⟨s, hs⟩ := hscore
    · exact fits_component hl hg hs
    · simp only [Overload.scoreGathering, gathers_of_gathering? hg] at hs
      split at hs
      · cases hs
      · simpa [List.map_const'] using (Overload.fits_of_scoreAll hs).2

/-- Where resolvers have nothing to say, arguments are prepared just where all have counterparts in
the types that they are converted to. -/
theorem prepare_value_iff (h : Conversion.Ignored host w.context.layout)
    (ha : ∀ v ∈ args, v.LivesIn w.heap)
    (hcount : m.gathering? w.heap args = none → args.length = m.params.length) :
    (∃ vs u, m.prepare host args w = .value vs u) ↔
      ∀ p ∈ (m.targets w.heap args).zip args, Coercion.fits w.heap p.1 p.2 = true := by
  unfold targets
  cases hg : m.gathering? w.heap args with
  | none =>
    rw [prepare_counted hg, if_pos (hcount hg)]
    exact convertAll_value_iff h ha
  | some component =>
    have hspare : ∀ v ∈ args.drop m.fixed.length, v ∈ args := fun v => List.mem_of_mem_drop
    -- The arguments that are left are converted in a later world, where values have the same types.
    have hrest {vs : List Value} {x : World} (hvs : convertAll host m.fixed args w = .value vs x) :
        (∃ rest u, convertAll host ((args.drop m.fixed.length).map fun _ => component)
            (args.drop m.fixed.length) x = .value rest u) ↔
          ∀ p ∈ ((args.drop m.fixed.length).map fun _ => component).zip (args.drop m.fixed.length),
            Coercion.fits w.heap p.1 p.2 = true := by
      have hx := convertAll_follows h.unclaimed ha hvs
      rw [convertAll_value_iff (hx.layout ▸ h) fun v hv =>
        Heap.livesIn_retained hx.heap (ha v (hspare v hv))]
      refine forall₂_congr fun p hp => ?_
      rw [Coercion.fits_retained hx.heap (ha p.2 (hspare p.2 (List.of_mem_zip hp).2))]
    rw [prepare_gathering hg, zip_append_drop, List.forall_mem_append, ← convertAll_value_iff h ha]
    constructor
    · rintro ⟨ws, u, hws⟩
      obtain ⟨vs, x, hvs, hws⟩ := Action.bind_eq_value.mp hws
      obtain ⟨rest, y, hr, _⟩ := Action.bind_eq_value.mp hws
      exact ⟨⟨vs, x, hvs⟩, (hrest hvs).mp ⟨rest, y, hr⟩⟩
    · rintro ⟨⟨vs, x, hvs⟩, hfits⟩
      obtain ⟨rest, y, hr⟩ := (hrest hvs).mpr hfits
      obtain ⟨a, u, hbuild, _⟩ := build_newArray component rest y
      refine ⟨vs ++ [.array a], u, ?_⟩
      rw [Action.bind_value hvs, Action.bind_value hr, Action.bind_value hbuild]
      rfl

/-- The code of a method that was selected for its arguments is run on what they become, unless one
of them is an object of the host where a scalar is stored. -/
theorem selected_prepared_iff (handle : Handler) (self : Value) {owner name : String}
    {methods : List Method} (h : Conversion.Ignored host w.context.layout)
    (hl : w.heap.lineage.Proper) (ha : ∀ v ∈ args, v.LivesIn w.heap)
    (hf : Overload.find w.heap owner methods name none args = .ok m) :
    m.invoke host handle self args w = (m.prepare host args >>= m.run host handle self) w ∧
      ((∃ vs u, m.prepare host args w = .value vs u) ↔
        ∀ p ∈ (m.targets w.heap args).zip args, ¬(p.1.isScalar = true ∧ p.2.isObject = true)) := by
  obtain ⟨hcount, hfits⟩ := fits_targets hl hf
  refine ⟨congrFun (invoke_eq m handle self args) w, ?_⟩
  rw [prepare_value_iff h ha hcount]
  exact forall₂_congr fun p hp => Coercion.fits_iff_of_fit? (hfits p hp)

theorem bare_lineage_proper : (World.fresh .bare .none).heap.lineage.Proper := fun n => by
  simp [World.fresh, Host.bare, ClassTable.ofHost, Lineage.shape]
  rfl

theorem joining_selected :
    Overload.find (World.fresh .bare .none).heap "T" [joining] "join" none [.text "a", .int 1] =
        .ok joining ∧
      ∃ vs u, joining.prepare .bare [.text "a", .int 1] (.fresh .bare .none) = .value vs u := by
  have hlives : ∀ v ∈ [Value.text "a", .int 1], v.LivesIn (World.fresh .bare .none).heap := by
    simp [Value.LivesIn, Value.typeCell?]
  have hfind : Overload.find (World.fresh .bare .none).heap "T" [joining] "join" none
      [.text "a", .int 1] = .ok joining := rfl
  refine ⟨hfind, (selected_prepared_iff (Evaluation.evaluator .bare) .null
    (Conversion.ignored_of_host Conversion.bare_ignoresConversions _) bare_lineage_proper hlives
    hfind).2.mpr ?_⟩
  decide

/-- A class of the host that extends the class of boxed integers. -/
def countShape : ClassShape where
  name := "N"
  kind := .plain
  superclass := some (.builtin .integer)
  interfaces := []
  stands := none

/-- A world with one object, of that class. -/
def countWorld : World :=
  { World.fresh .bare .none with
    heap := ⟨⟨#[countShape]⟩, #[.object ⟨.host 0, "n", none, []⟩]⟩ }

def counting : Method where
  name := "f"
  fixed := [.boxed .int]
  body := some fun _ args => .succeed (.int (Int32.ofNat args.length))
  id := ⟨.host 1, false, 0⟩

/-- Its object is what a method for integers is selected for, and is then refused as an integer. -/
theorem counted_object_refused :
    Conversion.Ignored .bare countWorld.context.layout ∧ countWorld.heap.lineage.Proper ∧
      Overload.fit? countWorld.heap (.boxed .int) (.object 0) = some .assignable ∧
      Overload.find countWorld.heap "T" [counting] "f" none [.object 0] = .ok counting ∧
      ∃ u, counting.invoke .bare (Evaluation.evaluator .bare) .null [.object 0] countWorld =
        .fault (.coercion "N#n" "N" "Integer") u := by
  have hmem : .builtin .integer ∈ countWorld.heap.lineage.ancestors (.host 0) :=
    Lineage.mem_ancestors.mpr (.single rfl)
  have hassignable : countWorld.heap.lineage.assignable (.boxed .int) (.named (.host 0)) = true :=
    Lineage.assignable_of_ancestor rfl hmem rfl
  have htype : countWorld.heap.typeOf? (.object 0) = some (.named (.host 0)) := rfl
  have hfit : Overload.fit? countWorld.heap (.boxed .int) (.object 0) = some .assignable := by
    simp only [Overload.fit?, htype, hassignable]
    rfl
  have hscore : Overload.scoreFixed countWorld.heap counting [.object 0] =
      some { assignable := 1 } := by
    show (Overload.fit? countWorld.heap (.boxed .int) (.object 0)).bind _ = _
    rw [hfit]
    rfl
  refine ⟨Conversion.ignored_of_host Conversion.bare_ignoresConversions _, ?_, hfit, ?_, _, rfl⟩
  · rintro (_ | _) <;> rfl
  · have hscored : [counting].filterMap (fun m =>
        (Overload.scoreFixed countWorld.heap m [.object 0]).map (·, m)) =
          [({ assignable := 1 }, counting)] := by
      simp [hscore]
    show (Overload.best _ ([counting].filterMap _) _ >>= _) = _
    rw [hscored]
    rfl

end Method

end ExprLang
