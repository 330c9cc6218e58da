import ExprLang.Factory

/-! A factory gives every text its own tree: what it keeps under a text is what the text parses to. -/

namespace ExprLang

namespace Cache

variable {κ α ε : Type} [DecidableEq κ] {c : Cache κ α} {k : κ} {a : α}

/-- Every entry has the property. -/
def Holds (p : κ → α → Prop) (c : Cache κ α) : Prop := ∀ e ∈ c.entries, p e.1 e.2

variable {p : κ → α → Prop}

theorem Holds.drain (h : c.Holds p) : c.drain.Holds p := by
  unfold Cache.drain
  split
  · exact h
  · exact fun e he => h e (List.mem_filter.mp he).1

omit [DecidableEq κ] in
theorem Holds.enter (h : c.Holds p) (hk : p k a) : (c.enter k a).Holds p := by
  have hentries : (c.enter k a).entries = c.entries ++ [(k, a)] := by
    unfold Cache.enter
    dsimp only
    split
    · rfl
    · split <;> rfl
  intro e he
  rw [hentries] at he
  rcases List.mem_append.mp he with he | he
  · exact h e he
  · rw [List.mem_singleton.mp he]
    exact hk

theorem Holds.find? (h : c.Holds p) (hf : c.find? k = some a) : p k a := by
  obtain ⟨e, he, rfl⟩ := Option.map_eq_some_iff.mp hf
  have hkey := List.find?_some he
  rw [decide_eq_true_eq] at hkey
  rw [← hkey]
  exact h e (List.mem_of_find?_eq_some he)

theorem Holds.putIfAbsent (h : c.Holds p) (hk : p k a) :
    p k (c.putIfAbsent k a).1 ∧ (c.putIfAbsent k a).2.Holds p := by
  unfold Cache.putIfAbsent
  dsimp only
  split
  · next b hb => exact ⟨h.drain.find? hb, h.drain⟩
  · exact ⟨hk, h.drain.enter hk⟩

/-- What is there or computed has the property, and so have all entries afterwards. -/
theorem Holds.getOrCompute (h : c.Holds p) (compute : Unit → Except ε α)
    (hc : ∀ a, compute () = .ok a → p k a) :
    (∀ a, (c.getOrCompute k compute).1 = .ok a → p k a) ∧ (c.getOrCompute k compute).2.Holds p := by
  unfold Cache.getOrCompute Cache.get
  cases hf : c.drain.find? k with
  | some b =>
    refine ⟨?_, h.drain⟩
    rintro a ⟨⟩
    exact h.drain.find? hf
  | none =>
    dsimp only
    cases hr : compute () with
    | ok b =>
      obtain ⟨hput, hholds⟩ := h.drain.putIfAbsent (hc b hr)
      refine ⟨?_, hholds⟩
      rintro a ⟨⟩
      exact hput
    | error e => exact ⟨nofun, h.drain⟩

/-- Where every entry is what would be computed, the answer is what is computed, also where that
fails. -/
theorem Holds.getOrCompute_eq {compute : κ → Except ε α}
    (h : c.Holds fun k a => compute k = .ok a) (k : κ) :
    (c.getOrCompute k fun _ => compute k).1 = compute k := by
  unfold Cache.getOrCompute Cache.get
  cases hf : c.drain.find? k with
  | some a => exact (h.drain.find? hf).symm
  | none =>
    dsimp only
    cases hr : compute k with
    | ok a => exact ((h.drain.putIfAbsent (p := fun k a => compute k = .ok a) hr).1).symm.trans hr
    | error e => rfl

end Cache

namespace Building

theorem bind_of_ok {α β : Type} {x : Building α} {k : α → Building β} {f f' : Factory}
    {a : α} (hx : x f = (.ok a, f')) : (x >>= k) f = k a f' := by
  simp only [bind, ExceptT.bind, ExceptT.mk, StateT.bind, ExceptT.bindCont, hx]

theorem of_bind {α β : Type} {x : Building α} {k : α → Building β} {f f' : Factory}
    {b : β} (h : (x >>= k) f = (.ok b, f')) : ∃ a g, x f = (.ok a, g) ∧ k a g = (.ok b, f') := by
  simp only [bind, ExceptT.bind, ExceptT.mk, StateT.bind, ExceptT.bindCont] at h
  generalize x f = r at h
  obtain ⟨_ | a, g⟩ := r
  · cases h
  · exact ⟨a, g, rfl, h⟩

theorem ofExcept_ok {α : Type} {x : Except Fault α} {a : α} (hx : x = .ok a)
    (f : Factory) : Factory.ofExcept x f = (.ok a, f) := by
  rw [hx]
  rfl

end Building

namespace Factory

/-- The factories that a program can come to have. -/
inductive Reached : Factory → Prop where
  | start (n : Nat) : Reached (ofCapacity n)
  | parse (text : String) {f : Factory} : Reached f → Reached (Factory.parse text f).2
  | reclaim (text : String) {f : Factory} : Reached f → Reached (f.reclaim text)
  | reclaimAll {f : Factory} : Reached f → Reached f.reclaimAll
  | length {f : Factory} : Reached f → Reached f.length.2

/-- The tree is what the text parses to. -/
def Parsed (text : String) (n : Node) : Prop := parseTemplate text = .ok n

theorem parse_holds {f : Factory} (h : f.trees.Holds Parsed) (text : String) :
    (∀ n, (parse text f).1 = .ok n → Parsed text n) ∧ (parse text f).2.trees.Holds Parsed := by
  have hread (n : Node) (hn : (parseTemplate text).mapError Fault.parse = .ok n) :
      Parsed text n := by
    cases hp : parseTemplate text with
    | ok m =>
      rw [hp] at hn
      cases hn
      exact hp
    | error e =>
      rw [hp] at hn
      cases hn
  exact h.getOrCompute (fun _ => (parseTemplate text).mapError Fault.parse) hread

theorem Reached.holds {f : Factory} (h : f.Reached) : f.trees.Holds Parsed := by
  induction h with
  | start n => exact nofun
  | parse text _ ih => exact (parse_holds ih text).2
  | @reclaim text f _ ih =>
    intro e he
    refine ih e ?_
    simp only [Factory.reclaim, Cache.reclaim] at he
    split at he <;> exact he
  | reclaimAll _ ih => exact ih
  | length _ ih => exact ih.drain

/-- The tree of a text is the one that the parser reads, and so is the error. -/
theorem Reached.parse_eq {f : Factory} (hf : f.Reached) (text : String) :
    (Factory.parse text f).1 = (parseTemplate text).mapError Fault.parse := by
  have hkept : f.trees.Holds fun text n => (parseTemplate text).mapError Fault.parse = .ok n := by
    intro e he
    have hread : parseTemplate e.1 = .ok e.2 := hf.holds e he
    rw [hread]
    rfl
  exact hkept.getOrCompute_eq text

/-- A text that has a tree is parsed, whatever is kept. -/
theorem Reached.parse_ok {f : Factory} (hf : f.Reached) {text : String} {n : Node}
    (hn : parseTemplate text = .ok n) :
    ∃ f', Factory.parse text f = (.ok n, f') ∧ f'.Reached := by
  have hread : (Factory.parse text f).1 = .ok n := by
    rw [hf.parse_eq text, hn]
    rfl
  exact ⟨(Factory.parse text f).2, Prod.ext hread rfl, hf.parse text⟩

/-- The value expression of a text that has this tree. -/
def valueOf (t : ClassTable) (c : Context) (text : String) (expected : Option TypeRef) (n : Node) :
    Except Fault ValueExpr :=
  (Bound.capture t c.bound n).map (.parsed text n · expected)

/-- The method expression of a text that has this tree. -/
def methodOf (t : ClassTable) (c : Context) (text : String) (returns : Option TypeRef)
    (params : Option (List TypeRef)) : Node → Except Fault MethodExpr
  | .plain content => .ok (.plain content returns params)
  | n =>
    if n.isMethodTarget then (Bound.capture t c.bound n).map (.parsed text n · returns params)
    else .error (.notMethodText text n.kind)

/-- What is built from a text depends on the text and the context, not on what is kept. -/
theorem Reached.valueExpression_eq {f : Factory} (hf : f.Reached) (t : ClassTable) (c : Context)
    (text : String) (expected : Option TypeRef) :
    (valueExpression t c text expected f).1 =
      (parseTemplate text).mapError Fault.parse >>= valueOf t c text expected := by
  rw [← hf.parse_eq text]
  simp only [valueExpression, bind, ExceptT.bind, ExceptT.mk, StateT.bind, ExceptT.bindCont]
  obtain ⟨_ | n, f'⟩ := Factory.parse text f
  · rfl
  · simp only [Except.bind, valueOf]
    cases Bound.capture t c.bound n <;> rfl

theorem Reached.methodExpression_eq {f : Factory} (hf : f.Reached) (t : ClassTable) (c : Context)
    (text : String) (returns : Option TypeRef) (params : Option (List TypeRef)) :
    (methodExpression t c text returns params f).1 =
      (parseTemplate text).mapError Fault.parse >>= methodOf t c text returns params := by
  rw [← hf.parse_eq text]
  simp only [methodExpression, bind, ExceptT.bind, ExceptT.mk, StateT.bind, ExceptT.bindCont]
  obtain ⟨_ | n, f'⟩ := Factory.parse text f
  · rfl
  · simp only [Except.bind]
    split
    · rfl
    · next hplain =>
      rw [methodOf.eq_2 _ _ _ _ _ _ hplain]
      split
      · cases Bound.capture t c.bound n <;> rfl
      · rfl

theorem of_parsed_bind {α : Type} {text : String} {k : Node → Except Fault α} {a : α}
    (h : (parseTemplate text).mapError Fault.parse >>= k = .ok a) :
    ∃ n, parseTemplate text = .ok n ∧ k n = .ok a := by
  cases hn : parseTemplate text with
  | error e =>
    rw [hn] at h
    cases h
  | ok n =>
    rw [hn] at h
    exact ⟨n, rfl, h⟩

theorem of_map {ε α β : Type} {x : Except ε α} {k : α → β} {b : β} (h : x.map k = .ok b) :
    ∃ a, x = .ok a ∧ b = k a := by
  cases x with
  | error e => cases h
  | ok a =>
    cases h
    exact ⟨a, rfl, rfl⟩

theorem methodOf_ok {t : ClassTable} {c : Context} {text : String} {returns : Option TypeRef}
    {params : Option (List TypeRef)} {n : Node} {m : MethodExpr}
    (h : methodOf t c text returns params n = .ok m) :
    (∃ content, n = .plain content ∧ m = .plain content returns params) ∨
      (∀ content, n ≠ .plain content) ∧ n.isMethodTarget = true ∧
        ∃ b, Bound.capture t c.bound n = .ok b ∧ m = .parsed text n b returns params := by
  unfold methodOf at h
  split at h
  · next content =>
    cases h
    exact .inl ⟨content, rfl, rfl⟩
  · next hplain =>
    split at h
    · next htarget => exact .inr ⟨hplain, htarget, of_map h⟩
    · cases h

/-- A value expression that is built from a text has the tree of the text, with what the tree
mentions in the context. -/
theorem valueExpression_spec {t : ClassTable} {c : Context} {f : Factory} (hf : f.Reached)
    {text : String} {expected : Option TypeRef} {e : ValueExpr}
    (h : (valueExpression t c text expected f).1 = .ok e) :
    ∃ n b, parseTemplate text = .ok n ∧ Bound.capture t c.bound n = .ok b ∧
      e = .parsed text n b expected := by
  rw [hf.valueExpression_eq] at h
  obtain ⟨n, hn, he⟩ := of_parsed_bind h
  obtain ⟨b, hb, rfl⟩ := of_map he
  exact ⟨n, b, hn, hb, rfl⟩

/-- A method expression that is built from a text is plain, or has the tree of the text with what
the tree mentions in the context. -/
theorem methodExpression_spec {t : ClassTable} {c : Context} {f : Factory} (hf : f.Reached)
    {text : String} {returns : Option TypeRef} {params : Option (List TypeRef)} {m : MethodExpr}
    (h : (methodExpression t c text returns params f).1 = .ok m) :
    (∃ content, parseTemplate text = .ok (.plain content) ∧ m = .plain content returns params) ∨
      ∃ n b, parseTemplate text = .ok n ∧ (∀ content, n ≠ .plain content) ∧
        Bound.capture t c.bound n = .ok b ∧ m = .parsed text n b returns params := by
  rw [hf.methodExpression_eq] at h
  obtain ⟨n, hn, hm⟩ := of_parsed_bind h
  rcases methodOf_ok hm with ⟨content, rfl, rfl⟩ | ⟨hplain, -, b, hb, rfl⟩
  · exact .inl ⟨content, hn, rfl⟩
  · exact .inr ⟨n, b, hn, hplain, hb, rfl⟩

/-- The tree of a method expression may name a method. -/
theorem methodExpression_isMethodTarget {t : ClassTable} {c : Context} {f : Factory}
    (hf : f.Reached) {text text' : String} {n : Node} {b : Bound} {returns returns' : Option TypeRef}
    {params params' : Option (List TypeRef)}
    (h : (methodExpression t c text returns params f).1 = .ok (.parsed text' n b returns' params')) :
    n.isMethodTarget = true := by
  rw [hf.methodExpression_eq] at h
  obtain ⟨n', -, hm⟩ := of_parsed_bind h
  rcases methodOf_ok hm with ⟨content, -, hparsed⟩ | ⟨-, htarget, b', -, hparsed⟩
  · cases hparsed
  · cases hparsed
    exact htarget

/-- Building an expression leaves a factory that keeps the right trees, whether or not it succeeds. -/
theorem Reached.valueExpression {f : Factory} (hf : f.Reached) (t : ClassTable) (c : Context)
    (text : String) (expected : Option TypeRef) :
    (Factory.valueExpression t c text expected f).2.Reached := by
  have hparse := hf.parse text
  simp only [Factory.valueExpression, bind, ExceptT.bind, ExceptT.mk, StateT.bind,
    ExceptT.bindCont]
  generalize Factory.parse text f = r at hparse ⊢
  obtain ⟨r, f'⟩ := r
  cases r with
  | error e => exact hparse
  | ok n =>
    dsimp only
    cases Bound.capture t c.bound n with
    | error e => exact hparse
    | ok b => exact hparse

end Factory

end ExprLang
