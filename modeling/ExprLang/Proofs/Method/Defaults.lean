import ExprLang.BeanProperty
import ExprLang.Proofs.Lineage.Subclassing
import ExprLang.Proofs.Method.Table

/-! The default that a class takes for a signature is that of the interface which a walk along all paths
meets first, among those that provide one. That interface may be below another that provides it too. -/

namespace ExprLang.ClassTable
variable {t : ClassTable} {c i : ClassId} {m n e : Method}

/-- The interface has a default of the signature. -/
def provides (t : ClassTable) (m : Method) (i : ClassId) : Bool :=
  (t.members i).methods.any fun n => n.isDefault && n.sameSignature m

theorem provides_iff :
    t.provides m i = true ↔
      ∃ n ∈ (t.members i).methods, n.isDefault = true ∧ n.sameSignature m = true := by
  simp only [provides, List.any_eq_true, Bool.and_eq_true]

theorem provides_congr (h : e.sameSignature m = true) : t.provides e = t.provides m := by
  have hsame (n : Method) : n.sameSignature e = n.sameSignature m := by
    rw [n.sameSignature_comm e, Method.sameSignature_congr h n, n.sameSignature_comm m]
  funext i
  simp only [provides, hsame]

/-- Of the defaults of one signature a class is offered all or none. -/
theorem isOffered_congr (h : n.sameSignature e = true) (hdefault : n.isDefault = true)
    (he : t.isOffered c e = true) : t.isOffered c n = true := by
  have hsame (k : Method) : k.sameSignature n = k.sameSignature e := by
    rw [k.sameSignature_comm n, Method.sameSignature_congr h k, e.sameSignature_comm k]
  rw [isOffered, Bool.and_eq_true] at he ⊢
  simp only [hsame]
  exact ⟨hdefault, he.2⟩

/-- A default comes from the interface that is listed first of those that provide it. -/
theorem find?_provides (ht : t.Placed) (he : e ∈ t.defaultMethods c) :
    (t.lineage.allInterfaces c).find? (t.provides e) = some e.id.owner := by
  rw [defaultMethods_eq] at he
  obtain ⟨before, k, after, hlisted, hmem, hoffered, hbefore⟩ := nearest_of_mem_unhidden he
  have hdefault : e.isDefault = true := (Bool.and_eq_true_iff.mp hoffered).1
  rw [ht.owner hmem, List.find?_eq_some_iff_append]
  refine ⟨provides_iff.mpr ⟨e, hmem, hdefault, e.sameSignature_refl⟩, before, after, hlisted, ?_⟩
  intro j hj
  rw [Bool.not_eq_true', Bool.eq_false_iff]
  intro hprovides
  obtain ⟨n, hn, hndefault, hsame⟩ := provides_iff.mp hprovides
  have hother := hbefore j hj n hn (isOffered_congr hsame hndefault hoffered)
  rw [hsame] at hother
  cases hother

/-- Where no class along the superclasses has a public method of the signature, the one entry is a
default. It is that of an interface `i` unless the walk along all paths meets another interface that
provides the signature before it meets `i`; so it is not where neither the class nor its superclasses
implement `i` themselves and whatever interface of theirs does provides the signature too. -/
theorem overriding_default_taken_iff (ht : t.Placed) (hi : i ∈ t.lineage.allInterfaces c)
    (hm : m ∈ (t.members i).methods) (hdefault : m.isDefault = true)
    (hown : ∀ k ∈ t.lineage.ancestors c, ∀ n ∈ (t.members k).methods, n.isPublic = true →
      n.sameSignature m = false) :
    ∃ e ∈ t.defaultMethods c, (∀ n, n ∈ t.allMethods c ∧ n.sameSignature m = true ↔ n = e) ∧
      (e.id.owner ≠ i ↔ ∃ before j after, t.lineage.fullWalk c = before ++ j :: after ∧
        i ∉ before ∧ j ≠ i ∧ t.provides m j = true) ∧
      ((∀ k ∈ t.lineage.ancestors c, ¬ t.lineage.Implements k i) →
        (∀ j ∈ t.lineage.allInterfaces c, t.lineage.Implements j i → t.provides m j = true) →
          e.id.owner ≠ i) := by
  have hnone : (t.classMethods c).any (·.sameSignature m) = false := by
    rw [List.any_eq_false]
    intro n hn
    obtain ⟨hmem, hpublic⟩ := List.mem_filter.mp (mem_of_mem_unhidden hn)
    obtain ⟨k, hk, hnk⟩ := List.mem_flatMap.mp hmem
    exact Bool.eq_false_iff.mp (hown k hk n hnk hpublic)
  have hoffered : t.isOffered c m = true := by
    rw [isOffered, hdefault, hnone]
    rfl
  obtain ⟨e, he, hentry⟩ := exists_default_entry hi hm hoffered
  have hsame : e.sameSignature m = true := ((hentry e).mpr rfl).2
  have hfound : (t.lineage.fullWalk c).find? (t.provides m) = some e.id.owner := by
    rw [← provides_congr hsame, ← find?_provides ht he, Lineage.allInterfaces_eq, find?_eraseDups]
  have hprovides : t.provides m i = true := provides_iff.mpr ⟨m, hm, hdefault, m.sameSignature_refl⟩
  refine ⟨e, he, hentry, find?_ne_iff hfound hprovides, ?_⟩
  rintro hdirect hbelow rfl
  rcases Lineage.named_of_find?_fullWalk hfound with ⟨k, hk, hnamed⟩ | ⟨j, hj, hnamed, hnot⟩
  · exact hdirect k hk hnamed
  · rw [hbelow j hj hnamed] at hnot
    cases hnot

/-- An interface, one below it that provides the same method, and two classes that implement both, the one
in this order and the other in reverse. -/
def overridingClasses : ClassTable :=
  .ofHost #[
    ⟨⟨"I", .interface, none, [], none⟩, .declare (.host 0) [namedMethod "getV"] [] [] []⟩,
    ⟨⟨"J", .interface, none, [.host 0], none⟩, .declare (.host 1) [namedMethod "getV"] [] [] []⟩,
    ⟨⟨"C", .plain, some (.builtin .object), [.host 0, .host 1], none⟩,
      .declare (.host 2) [] [] [] []⟩,
    ⟨⟨"D", .plain, some (.builtin .object), [.host 1, .host 0], none⟩,
      .declare (.host 3) [] [] [] []⟩]

/-- The method of `I`. -/
def baseMethod : Method := ⟨namedMethod "getV", ⟨.host 0, false, 0⟩⟩

theorem overridingClasses_placed : overridingClasses.Placed := by
  refine placed_ofHost fun n c hc => ?_
  obtain _ | _ | _ | _ | n := n <;> cases hc <;> exact ⟨_, _, _, _, rfl⟩

/-- The class that names the lower interface first takes what this provides. -/
theorem lower_default_taken :
    overridingClasses.Placed ∧ .host 0 ∈ overridingClasses.lineage.allInterfaces (.host 3) ∧
      (∀ k ∈ overridingClasses.lineage.ancestors (.host 3),
        ∀ n ∈ (overridingClasses.members k).methods, n.isPublic = true →
          n.sameSignature baseMethod = false) ∧
      ∃ e ∈ overridingClasses.defaultMethods (.host 3),
        (∀ n, n ∈ overridingClasses.allMethods (.host 3) ∧ n.sameSignature baseMethod = true ↔ n = e) ∧
          e.id.owner ≠ .host 0 := by
  have hancestors : overridingClasses.lineage.ancestors (.host 3) =
      [.host 3, .builtin .object] :=
    Lineage.ancestors_below_object (by decide +kernel)
  have hwalk : overridingClasses.lineage.fullWalk (.host 3) = [.host 1, .host 0, .host 0] := by cbv
  have hlisted : .host 0 ∈ overridingClasses.lineage.allInterfaces (.host 3) := by
    rw [Lineage.allInterfaces_eq, List.mem_eraseDups, hwalk]
    decide
  have hown : ∀ k ∈ overridingClasses.lineage.ancestors (.host 3),
      ∀ n ∈ (overridingClasses.members k).methods, n.isPublic = true →
        n.sameSignature baseMethod = false := by
    rw [hancestors]
    decide
  obtain ⟨e, he, hentry, hbefore, -⟩ := overriding_default_taken_iff overridingClasses_placed hlisted
    (m := baseMethod) List.mem_cons_self rfl hown
  refine ⟨overridingClasses_placed, hlisted, hown, e, he, hentry, hbefore.mpr ?_⟩
  exact ⟨[], _, _, hwalk, List.not_mem_nil, by decide, rfl⟩

/-- The class that names the upper interface first takes what this one provides, and reads its property
by it, although the lower interface overrides it. -/
theorem base_default_taken :
    (∀ k ∈ overridingClasses.lineage.ancestors (.host 2),
      ∀ n ∈ (overridingClasses.members k).methods, n.isPublic = true →
        n.sameSignature baseMethod = false) ∧
      (∀ i ∈ [.host 0, .host 1], i ∈ overridingClasses.lineage.allInterfaces (.host 2) ∧
        overridingClasses.provides baseMethod i = true) ∧
      overridingClasses.lineage.isSubclass (.host 1) (.host 0) = true ∧
      ((overridingClasses.allMethods (.host 2)).filter (·.sameSignature baseMethod)).map (·.id.owner) =
        [.host 0] ∧
      ((BeanProperties.ofClass overridingClasses (.host 2)).find? "v").bind
        (fun p => p.reader.map (·.id.owner)) = some (.host 0) := by
  have hancestors : overridingClasses.lineage.ancestors (.host 2) =
      [.host 2, .builtin .object] :=
    Lineage.ancestors_below_object (by decide +kernel)
  have hlisted : overridingClasses.lineage.allInterfaces (.host 2) = [.host 0, .host 1] := by cbv
  have hmethods : overridingClasses.defaultMethods (.host 2) = [baseMethod] := by
    rw [defaultMethods, classMethods, hancestors, hlisted]
    rfl
  refine ⟨?_, ?_, by cbv, ?_, ?_⟩
  · rw [hancestors]
    decide
  · rw [hlisted]
    decide
  · rw [allMethods, hmethods, classMethods, hancestors]
    rfl
  · rw [BeanProperties.ofClass, hmethods, classMethods, hancestors]
    decide +kernel

end ExprLang.ClassTable
