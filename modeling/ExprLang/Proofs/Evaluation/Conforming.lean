import ExprLang.Proofs.Evaluation.Capture
import ExprLang.Proofs.Evaluation.Tracked

/-! Code of the host that only writes to cells as known, and what the evaluator does with it. -/

namespace ExprLang

variable {α β : Type}

/-! ## Tasks and requests -/

/-- All that a task is given is grounded. -/
def Task.Grounded (m : Memory) : {α : Type} → Task α → Prop
  | _, .eval b _ => b.Grounded m.kinds
  | _, .assign b _ v => b.Grounded m.kinds ∧ m.Knows v
  | _, .typeOf b _ => b.Grounded m.kinds
  | _, .readOnly b _ => b.Grounded m.kinds
  | _, .invoke b _ _ args => b.Grounded m.kinds ∧ m.KnowsAll args
  | _, .info b _ _ => b.Grounded m.kinds

/-- What holds of the result of a task. -/
def Task.Yields : {α : Type} → Task α → Memory → α → Prop
  | _, .eval _ _ => Memory.Knows
  | _, .assign _ _ _ => Memory.Any
  | _, .typeOf _ _ => Memory.Any
  | _, .readOnly _ _ => Memory.Any
  | _, .invoke _ _ _ _ => Memory.Knows
  | _, .info _ _ _ => Memory.Any

/-- All that a request is given is grounded, and nothing stores null in an array of a primitive
type. -/
def Request.Grounded (m : Memory) : {α : Type} → Request α → Prop
  | _, .get base property => m.Knows base ∧ m.Knows property
  | _, .type base property => m.Knows base ∧ m.Knows property
  | _, .set base property v => m.Knows base ∧ m.Knows property ∧ m.Knows v ∧
      ∀ a c, base = .array a → m.kinds[a]? = some (.array c) → v = .null → c.isPrimitive = false
  | _, .readOnly base property => m.Knows base ∧ m.Knows property
  | _, .invoke base method _ args => m.Knows base ∧ m.Knows method ∧ m.KnowsAll args
  | _, .convert v _ => m.Knows v

/-- What holds of the answer to a request. -/
def Request.Yields : {α : Type} → Request α → Memory → α → Prop
  | _, .get _ _ => Memory.Knows
  | _, .type _ _ => Memory.Any
  | _, .set _ _ _ => Memory.Any
  | _, .readOnly _ _ => Memory.Any
  | _, .invoke _ _ _ _ => Memory.Knows
  | _, .convert _ _ => Memory.Knows

/-! ## Code of the host -/

/-- From these cells on, the code only writes as known, whatever it is answered, and uses no values
but those that it was given. -/
def HostCode.Conforms (guarded : CellKind → Bool) : HostCode → Memory → Prop
  | .finish r, m => m.KnowsResult r
  | .read next, m => (next m.heap).Conforms guarded m
  | .write h next, m => ∃ m', m.Reaches guarded m' ∧ m'.heap = { m.heap with cells := h.cells } ∧
      next.Conforms guarded m'
  | .bean _ next, m => ∀ found, m.KnowsFound found → (next found).Conforms guarded m
  | .call f args next, m => f.Grounded m.kinds ∧ m.KnowsAll args ∧
      ∀ r m', m.Reaches guarded m' → m'.KnowsResult r → (next r).Conforms guarded m'
  | .evaluate _ next, m =>
      ∀ r m', m.Reaches guarded m' → m'.KnowsResult r → (next r).Conforms guarded m'
  | .typeOf _ next, m => ∀ r m', m.Reaches guarded m' → (next r).Conforms guarded m'
  | .readOnly _ next, m => ∀ r m', m.Reaches guarded m' → (next r).Conforms guarded m'
  | .assign _ v next, m => m.Knows v ∧
      ∀ r m', m.Reaches guarded m' → (next r).Conforms guarded m'

/-- The code of a method conforms, given a receiver and arguments that are grounded. -/
def Declaration.Conforms (guarded : CellKind → Bool) (d : Declaration) : Prop :=
  ∀ code, d.body = some code → ∀ (m : Memory) self args, m.Knows self → m.KnowsAll args →
    (code self args).Conforms guarded m

/-- The methods of all classes conform. -/
def Host.Conforms (guarded : CellKind → Bool) (host : Host) : Prop :=
  ∀ m, host.classes.Declares m → m.Conforms guarded

namespace Regime

/-- A handler tracks every task that it is given. -/
def Handles (R : Regime) (handle : Handler) : Prop :=
  ∀ {α : Type} (m : Memory) (t : Task α), t.Grounded m → R.Tracks m (handle t) t.Yields

/-- What a step of the evaluator relies on. -/
structure Sound (R : Regime) (handle : Handler) : Prop where
  conforms : R.host.Conforms R.guarded
  handler : R.Handles handle

end Regime

/-! ## Conversions -/

theorem Coercion.grounded_of_toType {k : Kinds} {h : Heap} {t : TypeRef} {v r : Value}
    (hv : v.Grounded k) (hr : toType h t v = .ok r) : r.Grounded k := by
  rcases toType_self_or_atom h t v r hr with rfl | hatom
  · exact hv
  · exact Value.grounded_of_isAtom hatom

namespace Regime

variable {R : Regime} {m : Memory} {v : Value}

/-- The value is grounded, and fits a variable of the type. -/
def Suits (t : TypeRef) (m : Memory) (v : Value) : Prop := m.Knows v ∧ m.heap.Takes t v

theorem lasting_suits (t : TypeRef) : R.Lasting (Suits t) := fun _ m _ hm hv =>
  ⟨hv.1.mono hm.kinds, (Heap.takes_retained hm.retains (hv.1.livesIn m.grounded)).mpr hv.2⟩

theorem convert_tracks (t : TypeRef) (hv : m.Knows v) :
    R.Tracks m (Conversion.convert R.host v t) (Suits t) := by
  intro m₁ w h₁ hw
  rw [Conversion.convert_standard hw.layout, hw.heap]
  cases hr : Coercion.toType m₁.heap t v with
  | ok r =>
    exact hw.ends ⟨Coercion.grounded_of_toType (hv.mono h₁.kinds) hr, (Coercion.toType_takes hr).1⟩
  | error e => exact hw.fails e

theorem convert_knows (t : TypeRef) (hv : m.Knows v) :
    R.Tracks m (Conversion.convert R.host v t) Memory.Knows :=
  (convert_tracks t hv).imp fun _ _ _ h => h.1

theorem convertTo?_tracks (t : Option TypeRef) (hv : m.Knows v) :
    R.Tracks m (Conversion.convertTo? R.host v t) Memory.Knows := by
  cases t with
  | none => exact .pure_value hv
  | some t => exact convert_knows t hv

/-- Arguments become values that suit the types at the same places. -/
theorem convertAll_tracks {vs : List Value} (hvs : m.KnowsAll vs) (ts : List TypeRef) :
    R.Tracks m (Method.convertAll R.host ts vs) fun m ws => ∀ w ∈ ws, ∃ t ∈ ts, Suits t m w := by
  induction vs generalizing m ts with
  | nil => cases ts <;> exact .pure fun _ _ => nofun
  | cons v vs ih =>
    obtain ⟨hv, hrest⟩ := List.forall_mem_cons.mp hvs
    cases ts with
    | nil => exact .pure fun _ _ => nofun
    | cons t ts =>
      refine (convert_tracks t hv).bind fun w m₁ h₁ hw => ?_
      have hlater : m₁.KnowsAll vs := Value.grounded_all_mono hrest h₁.kinds
      refine (ih hlater ts).bind fun ws m₂ h₂ hws => .pure fun m₃ h₃ x hx => ?_
      rcases List.mem_cons.mp hx with rfl | hx
      · exact ⟨t, List.mem_cons_self, lasting_suits t _ _ _ (h₂.trans h₃) hw⟩
      · obtain ⟨s, hs, hsuits⟩ := hws x hx
        exact ⟨s, List.mem_cons_of_mem t hs, lasting_suits s _ _ _ h₃ hsuits⟩

/-! ## What expressions are built with -/

end Regime

namespace Bound

variable {k : Kinds} {t : ClassTable} {source b : Bound}

theorem capture_grounded {n : Node} (hs : source.Grounded k) (h : capture t source n = .ok b) :
    b.Grounded k := by
  have hvars := capture_vars h
  obtain ⟨functions, vars⟩ := b
  exact Bound.grounded_mk fun e he => hs.vars e (hvars he)

end Bound

namespace Regime

variable {R : Regime} {m : Memory}

/-- The expression of a text knows what the context knows. -/
theorem expressionOf_grounded {t : ClassTable} {k : Kinds} {c : Context} {text : String}
    {e : ValueExpr} (hc : c.Grounded k) (h : expressionOf t c text = .ok e) : e.Grounded k := by
  obtain ⟨node, -, h⟩ := ok_of_bind h
  obtain ⟨bound, hbound, h⟩ := ok_of_bind h
  cases h
  exact ValueExpr.grounded_parsed (Bound.capture_grounded hc.bound hbound)

/-! ## Lambdas and expressions -/

theorem scope_grounded {k : Kinds} {f : Closure} {args : List Value} (hf : f.Grounded k)
    (hargs : ∀ v ∈ args, v.Grounded k) : (f.scope args).Grounded k := by
  unfold Closure.scope
  exact List.foldlRecOn (motive := fun s : Bindings Value => s.Grounded k) _ _ hf.captured
    fun s hscope p _ => hscope.insert p.1 (Value.grounded_getD hargs p.2)

section Code

variable {handle : Handler} (hs : R.Sound handle)
include hs

theorem closure_tracks {f : Closure} {args : List Value} (hf : f.Grounded m.kinds)
    (hargs : m.KnowsAll args) : R.Tracks m (f.invoke handle args) Memory.Knows :=
  .withScope (scope_grounded hf hargs) (hs.handler m (.eval f.bound f.body) hf.bound)

variable {e : ValueExpr}

theorem read_tracks (he : e.Grounded m.kinds) :
    R.Tracks m (e.read R.host handle) Memory.Knows := by
  cases e with
  | parsed text node bound expected =>
    refine .bracketed text ?_ lasting_knows
    exact (hs.handler m (.eval bound node) he.parsed).bind fun v m₁ _ hv => convertTo?_tracks _ hv
  | literal v expected => exact convertTo?_tracks _ he.literal

theorem readAs_tracks (he : e.Grounded m.kinds) (t : TypeRef) :
    R.Tracks m (e.readAs R.host handle t) Memory.Knows := by
  cases e with
  | parsed text node bound expected =>
    exact (Tracks.bracketed text (hs.handler m (.eval bound node) he.parsed) lasting_knows).bind
      fun v m₁ _ hv => convert_knows t hv
  | literal v expected =>
    exact (Tracks.pure_value he.literal).bind fun v m₁ _ hv => convert_knows t hv

theorem write_tracks (he : e.Grounded m.kinds) {v : Value} (hv : m.Knows v) :
    R.Tracks m (e.write handle v) Memory.Any := by
  cases e with
  | parsed text node bound expected =>
    exact .bracketed text (hs.handler m (.assign bound node v) ⟨he.parsed, hv⟩) lasting_any
  | literal w expected => exact .heap_bind fun _ _ => .fail _

theorem isReadOnly_tracks (he : e.Grounded m.kinds) :
    R.Tracks m (e.isReadOnly handle) Memory.Any := by
  cases e with
  | parsed text node bound expected => exact hs.handler m (.readOnly bound node) he.parsed
  | literal w expected => exact .pure_any _

theorem type?_tracks (he : e.Grounded m.kinds) : R.Tracks m (e.type? handle) Memory.Any := by
  cases e with
  | parsed text node bound expected => exact hs.handler m (.typeOf bound node) he.parsed
  | literal w expected => exact .pure_any _

variable {x : MethodExpr}

theorem methodExpr_invoke_tracks (hx : x.Grounded m.kinds) {args : List Value}
    (hargs : m.KnowsAll args) : R.Tracks m (x.invoke R.host handle args) Memory.Knows := by
  cases x with
  | parsed text node bound returns params =>
    exact .bracketed text (hs.handler m (.invoke bound node params args) ⟨hx.parsed, hargs⟩)
      lasting_knows
  | plain text returns params =>
    have htext : m.Knows (.text text) := Value.grounded_of_isAtom rfl
    rcases returns with _ | t
    · exact .pure_value htext
    · cases t <;> first | exact .pure_value htext | exact convert_knows _ htext

theorem methodExpr_info_tracks (hx : x.Grounded m.kinds) :
    R.Tracks m (x.info handle) Memory.Any := by
  cases x with
  | parsed text node bound returns params => exact hs.handler m (.info bound node params) hx.parsed
  | plain text returns params => exact .pure_any _

/-! ## Methods -/

omit hs in
theorem withText_tracks {α : Type} {P : Memory → α → Prop} (text : String)
    {use : ValueExpr → Action α}
    (hu : ∀ e m', R.Reaches m m' → e.Grounded m'.kinds → R.Tracks m' (use e) P) :
    R.Tracks m (withText R.host text use) fun m r => ResultIn (P m) r := by
  refine .attempt (.context_bind fun m₁ c h₁ hc => ?_)
  refine (Tracks.ofExcept (P := fun m e => e.Grounded m.kinds) fun m₂ h₂ e he => ?_).bind
    fun e m₂ h₂ he => hu e m₂ (h₁.trans h₂) he
  exact (expressionOf_grounded hc he).mono h₂.kinds

theorem perform_ends {code : HostCode} {w : World} (hc : code.Conforms R.guarded m)
    (hw : R.Standing m w) :
    R.Ends m Memory.KnowsResult (code.perform R.host handle w) := by
  induction code generalizing m w with
  | finish r => exact hw.ends hc
  | read next ih =>
    show R.Ends m _ ((next w.heap).perform R.host handle w)
    rw [hw.heap]
    exact ih m.heap hc hw
  | write h next ih =>
    obtain ⟨m₁, h₁, hh, hnext⟩ := hc
    exact (ih hnext (hw.written h₁ hh)).trans h₁
  | bean name next ih =>
    exact ih _ (hc _ fun v hv => hw.context.bean? hv) hw
  | call f args next ih =>
    obtain ⟨hf, hargs, hnext⟩ := hc
    exact ((closure_tracks hs hf hargs).attempt m w .refl hw).bind fun r m₁ u h₁ hu hr =>
      ih r (hnext r m₁ h₁ hr) hu
  | evaluate text next ih =>
    exact (withText_tracks text (fun e _ _ he => read_tracks hs he) m w .refl hw).bind
      fun r m₁ u h₁ hu hr => ih r (hc r m₁ h₁ hr) hu
  | typeOf text next ih =>
    exact (withText_tracks text (fun e _ _ he => type?_tracks hs he) m w .refl hw).bind
      fun r m₁ u h₁ hu _ => ih r (hc r m₁ h₁) hu
  | readOnly text next ih =>
    exact (withText_tracks text (fun e _ _ he => isReadOnly_tracks hs he) m w .refl hw).bind
      fun r m₁ u h₁ hu _ => ih r (hc r m₁ h₁) hu
  | assign text v next ih =>
    obtain ⟨hv, hnext⟩ := hc
    exact (withText_tracks text (fun e _ hm he => write_tracks hs he (hv.mono hm.kinds)) m w .refl
      hw).bind fun r m₁ u h₁ hu _ => ih r (hnext r m₁ h₁) hu

theorem run_tracks {f : Method} (hf : R.host.classes.Declares f) {self : Value}
    {args : List Value} (hself : m.Knows self) (hargs : m.KnowsAll args) :
    R.Tracks m (f.run R.host handle self args) Memory.Knows := by
  intro m₁ w h₁ hw
  unfold Method.run
  cases hbody : f.body with
  | none => exact hw.fails _
  | some code =>
    have hconforms := hs.conforms f hf code hbody m₁ self args (hself.mono h₁.kinds)
      (Value.grounded_all_mono hargs h₁.kinds)
    refine (perform_ends hs hconforms hw).bind fun r m₂ u h₂ hu hr => ?_
    cases r with
    | ok v => exact hu.ends (hr v rfl)
    | error e => exact hu.fails _

theorem invoke_tracks {f : Method} (hf : R.host.classes.Declares f) {self : Value}
    {args : List Value} (hself : m.Knows self) (hargs : m.KnowsAll args) :
    R.Tracks m (f.invoke R.host handle self args) Memory.Knows := by
  refine .heap_bind fun m₁ h₁ => ?_
  have hself₁ : m₁.Knows self := hself.mono h₁.kinds
  have hargs₁ : m₁.KnowsAll args := Value.grounded_all_mono hargs h₁.kinds
  split
  · next component _ _ =>
    have hspare : m₁.KnowsAll (args.drop f.fixed.length) := fun v hv =>
      hargs₁ v (List.mem_of_mem_drop hv)
    refine (convertAll_tracks hargs₁ f.fixed).bind fun fixed m₂ h₂ hfixed => ?_
    refine (convertAll_tracks (Value.grounded_all_mono hspare h₂.kinds) _).bind
      fun rest m₃ h₃ hrest => ?_
    have hsuits : ∀ v ∈ rest, Suits component m₃ v := by
      intro v hv
      obtain ⟨t, ht, hsuits⟩ := hrest v hv
      obtain ⟨-, -, rfl⟩ := List.mem_map.mp ht
      exact hsuits
    refine Tracks.bind (P := Memory.Knows) (fun m₄ w h₄ hw => ?_) fun gathered m₄ h₄ hgathered => ?_
    · have hlater (v) (hv : v ∈ rest) := lasting_suits component v m₃ m₄ h₄ (hsuits v hv)
      exact hw.build (m₄.newArray_reached (fun v hv => (hlater v hv).1) fun v hv => (hlater v hv).2)
        rfl
    · refine run_tracks hs hf (hself₁.mono (h₂.kinds.trans (h₃.kinds.trans h₄.kinds))) ?_
      refine List.forall_mem_append.mpr ⟨fun v hv => ?_, List.forall_mem_singleton.mpr hgathered⟩
      obtain ⟨t, -, hv⟩ := hfixed v hv
      exact hv.1.mono (h₃.kinds.trans h₄.kinds)
  · refine .ite ((convertAll_tracks hargs₁ f.params).bind fun vs m₂ h₂ hvs => ?_) (.fail _)
    exact run_tracks hs hf (hself₁.mono h₂.kinds) fun v hv => (hvs v hv).choose_spec.2.1

end Code

end Regime

end ExprLang
