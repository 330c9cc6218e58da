import ExprLang.Proofs.Declared
import ExprLang.Proofs.Value.Alike

/-! The bindings that a tree takes with it are part of those in sight, and they lack nothing that the
tree mentions. -/

namespace ExprLang

/-- All bindings of the first are bindings of the second. -/
structure Bound.Within (b c : Bound) : Prop where
  functions (ns name : String) (id : MethodId) :
    b.function? ns name = some id → c.function? ns name = some id
  vars (name : String) (e : ValueExpr) : b.expression? name = some e → c.expression? name = some e

namespace Bound

variable {t : ClassTable} {source b c : Bound} {n : Node} {ps : List Node}

@[simp] theorem function?_mk (f : Bindings MethodId) (v : Bindings ValueExpr) (ns name : String) :
    (mk f v).function? ns name = f.find? (functionKey ns name) := rfl

@[simp] theorem expression?_mk (f : Bindings MethodId) (v : Bindings ValueExpr) (name : String) :
    (mk f v).expression? name = v.find? name := rfl

theorem empty_within (c : Bound) : Within empty c :=
  ⟨fun _ _ _ h => (by cases h), fun _ _ h => (by cases h)⟩

/-! ## One part -/

theorem addVariable_within (hb : b.Within source) (name : String) :
    b.Within (addVariable source b name) ∧ (addVariable source b name).Within source := by
  obtain ⟨functions, vars⟩ := b
  unfold addVariable
  cases he : source.expression? name with
  | none => exact ⟨⟨fun _ _ _ h => h, fun _ _ h => h⟩, hb⟩
  | some e =>
    refine ⟨⟨fun _ _ _ h => h, fun x e' h => ?_⟩, ⟨hb.functions, fun x e' h => ?_⟩⟩
    · have hx := hb.vars x e' h
      rw [expression?_mk] at h ⊢
      simp only [Bound.vars, Bindings.find?_insert]
      split
      · next hname =>
        subst hname
        rw [← hx, he]
      · exact h
    · rw [expression?_mk] at h
      simp only [Bound.vars, Bindings.find?_insert] at h
      split at h
      · next hname =>
        subst hname
        rw [he, h]
      · exact hb.vars x e' h

theorem addVariable_expression? (hb : b.Within source) (name : String) :
    (addVariable source b name).expression? name = source.expression? name := by
  unfold addVariable
  cases he : source.expression? name with
  | none =>
    cases hn : b.expression? name with
    | none => rfl
    | some e => rw [hb.vars name e hn] at he; cases he
  | some e => simp [Bindings.find?_insert]

theorem addFunction_within {ns name : String} {id : MethodId}
    (hid : source.function? ns name = some id) (hb : b.Within source) :
    b.Within (mk (b.functions.insert (functionKey ns name) id) b.vars) ∧
      (mk (b.functions.insert (functionKey ns name) id) b.vars).Within source := by
  obtain ⟨functions, vars⟩ := b
  refine ⟨⟨fun ms x id' h => ?_, fun _ _ h => h⟩, ⟨fun ms x id' h => ?_, hb.vars⟩⟩
  · have hx := hb.functions ms x id' h
    rw [function?_mk] at h ⊢
    simp only [Bound.functions, Bindings.find?_insert]
    split
    · next hkey => rw [← hx, ← hid, function?, function?, hkey]
    · exact h
  · rw [function?_mk] at h
    simp only [Bound.functions, Bindings.find?_insert] at h
    split at h
    · next hkey => rw [← h, ← hid, function?, function?, hkey]
    · exact hb.functions ms x id' h

/-- A function that is missing has no method, in part of the bindings as in all of them. -/
theorem Within.method?_eq_none (h : b.Within source) {ns name : String}
    (hs : source.method? t ns name = none) : b.method? t ns name = none := by
  unfold method? at hs ⊢
  cases hf : b.function? ns name with
  | none => rfl
  | some id =>
    rw [h.functions ns name id hf] at hs
    exact hs

theorem captureNode_agree (hb : b.Within source) (h : captureNode t source b n = .ok c) :
    b.Within c ∧ c.Within source ∧ Agree t [n] c source := by
  have other (hc : c = b) (hname : ∀ x, n ≠ .name x) (hcall : ∀ ns x calls, n ≠ .call ns x calls) :
      b.Within c ∧ c.Within source ∧ Agree t [n] c source := by
    subst hc
    refine ⟨⟨fun _ _ _ h => h, fun _ _ h => h⟩, hb, fun x hx => ?_, fun ns x calls hx => ?_,
      fun ns x calls hx => ?_⟩
    · exact (hname x (List.mem_singleton.mp hx).symm).elim
    · exact (hcall ns x calls (List.mem_singleton.mp hx).symm).elim
    · exact (hcall ns x calls (List.mem_singleton.mp hx).symm).elim
  unfold captureNode at h
  split at h
  · next name =>
    cases h
    obtain ⟨hgrow, hwithin⟩ := addVariable_within hb name
    refine ⟨hgrow, hwithin, fun x hx => ?_, fun ns x calls hx => ?_, fun ns x calls hx => ?_⟩
    · cases List.mem_singleton.mp hx
      exact addVariable_expression? hb name
    all_goals cases List.mem_singleton.mp hx
  · next ns name calls =>
    dsimp only at h
    split at h
    · next id m hid hm =>
      obtain ⟨_, _, h⟩ := ok_of_bind h
      cases h
      obtain ⟨hgrow, hwithin⟩ := addFunction_within hid hb
      have hsame : (mk (b.functions.insert (functionKey ns name) id) b.vars).method? t ns name =
          source.method? t ns name := by
        simp [method?, hid, Bindings.find?_insert]
      refine ⟨hgrow, hwithin, fun x hx => ?_, fun ms x cs hx => ?_, fun ms x cs hx _ hnone => ?_⟩
      all_goals cases List.mem_singleton.mp hx
      · exact hsame
      · rw [hsame, hm] at hnone
        cases hnone
    · next hmissing =>
      have hnone : source.method? t ns name = none := by
        unfold method?
        cases hid : source.function? ns name with
        | none => rfl
        | some id =>
          cases hm : t.method? id with
          | none => exact hm
          | some m => exact (hmissing id m hid (by simp [method?, hid, hm])).elim
      split at h
      · cases h
        obtain ⟨hgrow, hwithin⟩ := addVariable_within hb name
        refine ⟨hgrow, hwithin, fun x hx => ?_, fun ms x cs hx => ?_, fun ms x cs hx _ _ => ?_⟩
        all_goals cases List.mem_singleton.mp hx
        · rw [hnone, hwithin.method?_eq_none hnone]
        · exact addVariable_expression? hb name
      · cases h
  · next hname hcall =>
    cases h
    exact other rfl hname hcall

/-! ## A whole tree -/

namespace Agree

/-- More bindings of the source agree on what fewer agree on. -/
theorem grow (h : Agree t ps b source) (hbc : b.Within c) (hc : c.Within source) :
    Agree t ps c source := by
  have hvar {x : String} (he : b.expression? x = source.expression? x) :
      c.expression? x = source.expression? x := by
    cases hs : source.expression? x with
    | some e => exact hbc.vars x e (he.trans hs)
    | none =>
      cases hx : c.expression? x with
      | none => rfl
      | some e => rw [hc.vars x e hx] at hs; cases hs
  have hfun (ns x : String) (calls : List (List Node)) (hx : .call ns x calls ∈ ps) :
      c.method? t ns x = source.method? t ns x := by
    have he := h.function ns x calls hx
    cases hs : source.method? t ns x with
    | none => exact hc.method?_eq_none hs
    | some m =>
      obtain ⟨id, hid, hm⟩ := Option.bind_eq_some_iff.mp (he.trans hs)
      unfold method?
      rw [hbc.functions ns x id hid]
      exact hm
  refine ⟨fun x hx => hvar (h.name x hx), hfun, fun ns x calls hx hns hnone => ?_⟩
  rw [hfun ns x calls hx, ← h.function ns x calls hx] at hnone
  exact hvar (h.called ns x calls hx hns hnone)

theorem append {qs : List Node} (h : Agree t ps b c) (h' : Agree t qs b c) :
    Agree t (ps ++ qs) b c where
  name x hx := (List.mem_append.mp hx).elim (h.name x) (h'.name x)
  function ns x calls hx :=
    (List.mem_append.mp hx).elim (h.function ns x calls) (h'.function ns x calls)
  called ns x calls hx := (List.mem_append.mp hx).elim (h.called ns x calls) (h'.called ns x calls)

end Agree

theorem foldlM_captureNode_agree (hb : b.Within source)
    (h : ps.foldlM (captureNode t source) b = .ok c) :
    b.Within c ∧ c.Within source ∧ Agree t ps c source := by
  induction ps generalizing b with
  | nil =>
    cases h
    exact ⟨⟨fun _ _ _ h => h, fun _ _ h => h⟩, hb, ⟨nofun, nofun, nofun⟩⟩
  | cons n ps ih =>
    rw [List.foldlM_cons] at h
    obtain ⟨b', hn, hps⟩ := ok_of_bind h
    obtain ⟨hgrow, hwithin, hagree⟩ := captureNode_agree hb hn
    obtain ⟨hgrow', hwithin', hagree'⟩ := ih hwithin hps
    refine ⟨⟨fun ns x id hx => hgrow'.functions ns x id (hgrow.functions ns x id hx),
      fun x e hx => hgrow'.vars x e (hgrow.vars x e hx)⟩, hwithin', ?_⟩
    exact (hagree.grow hgrow' hwithin').append hagree'

/-! ## Variables -/

theorem addVariable_vars (hb : b.vars ⊆ source.vars) (name : String) :
    (addVariable source b name).vars ⊆ source.vars := by
  unfold addVariable
  cases he : source.expression? name with
  | none => exact hb
  | some e =>
    intro d hd
    rcases Bindings.mem_of_mem_insert hd with rfl | hd
    · exact Bindings.mem_of_find? he
    · exact hb hd

theorem captureNode_vars (hb : b.vars ⊆ source.vars) (h : captureNode t source b n = .ok c) :
    c.vars ⊆ source.vars := by
  unfold captureNode at h
  split at h
  · cases h
    exact addVariable_vars hb _
  · dsimp only at h
    split at h
    · obtain ⟨-, -, h⟩ := ok_of_bind h
      cases h
      exact hb
    · split at h
      · cases h
        exact addVariable_vars hb _
      · cases h
  · cases h
    exact hb

/-- The variables that a tree takes with it are among those in sight. -/
theorem capture_vars (h : capture t source n = .ok b) : b.vars ⊆ source.vars := by
  suffices hfold : ∀ (ns : List Node) (c : Bound), c.vars ⊆ source.vars →
      ns.foldlM (captureNode t source) c = .ok b → b.vars ⊆ source.vars from
    hfold n.parts empty (List.nil_subset _) h
  intro ns
  induction ns with
  | nil =>
    rintro c hc ⟨⟩
    exact hc
  | cons n ns ih =>
    intro c hc h
    rw [List.foldlM_cons] at h
    obtain ⟨d, hn, hns⟩ := ok_of_bind h
    exact ih d (captureNode_vars hc hn) hns

/-- What a tree takes with it agrees with all that was in sight on every name in the tree. -/
theorem capture_agree (h : capture t source n = .ok b) : Agree t n.parts b source :=
  (foldlM_captureNode_agree (empty_within source) h).2.2

end Bound

end ExprLang
