import ExprLang.Proofs.Evaluation.Capture
import ExprLang.Proofs.Evaluation.Frame
import ExprLang.Proofs.Value.Atom
import ExprLang.Proofs.Value.Rooted

/-! Computations that agree wherever all trees grow from roots, and that keep it so. They may differ
in what becomes of trees that grow from none. -/

namespace ExprLang

variable {α β : Type} {O : Origin}

/-- The outcome leaves all rooted, and its value has the property. -/
def Outcome.Rooted (O : Origin) (P : α → Prop) : Outcome α → Prop
  | .value a w => P a ∧ w.Rooted O
  | .fault _ w => w.Rooted O
  | .exhausted => True

/-- The two end in the same way in every world in which all is rooted, and leave it so. -/
def Action.Agrees (O : Origin) (P : α → Prop) (x y : Action α) : Prop :=
  ∀ w : World, w.Rooted O → x w = y w ∧ (x w).Rooted O P

open ExprLang.Action (Agrees)

namespace Action.Agrees

variable {P : α → Prop} {Q : β → Prop} {x y : Action α} {f g : α → Action β}

/-- A computation agrees with itself if it keeps all rooted. -/
theorem self (h : ∀ w : World, w.Rooted O → (x w).Rooted O P) : Agrees O P x x :=
  fun w hw => ⟨rfl, h w hw⟩

theorem pure {a : α} (h : P a) : Agrees O P (pure a) (pure a) := self fun _ hw => ⟨h, hw⟩

theorem fail (e : Fault) : Agrees O P (Action.fail e) (Action.fail e) := self fun _ hw => hw

theorem exhausted : Agrees O P Action.exhausted Action.exhausted := self fun _ _ => trivial

theorem bind (hx : Agrees O P x y) (hf : ∀ a, P a → Agrees O Q (f a) (g a)) :
    Agrees O Q (x >>= f) (y >>= g) := by
  intro w hw
  obtain ⟨heq, hrooted⟩ := hx w hw
  cases h : x w with
  | value a u =>
    rw [h] at heq hrooted
    rw [bind_value h, bind_value heq.symm]
    exact hf a hrooted.1 u hrooted.2
  | fault e u =>
    rw [h] at heq hrooted
    rw [bind_fault h, bind_fault heq.symm]
    exact ⟨rfl, hrooted⟩
  | exhausted =>
    rw [h] at heq
    rw [bind_exhausted h, bind_exhausted heq.symm]
    exact ⟨rfl, trivial⟩

theorem imp {P' : α → Prop} (hx : Agrees O P x y) (hp : ∀ a, P a → P' a) : Agrees O P' x y := by
  intro w hw
  obtain ⟨heq, hrooted⟩ := hx w hw
  refine ⟨heq, ?_⟩
  revert hrooted
  cases x w with
  | value a u => exact fun h => ⟨hp a h.1, h.2⟩
  | fault e u => exact id
  | exhausted => exact id

theorem map (k : α → β) (hx : Agrees O P x y) (hk : ∀ a, P a → Q (k a)) :
    Agrees O Q (k <$> x) (k <$> y) := by
  rw [map_eq_pure_bind, map_eq_pure_bind]
  exact hx.bind fun a ha => pure (hk a ha)

theorem ite {c : Prop} [Decidable c] {x' y' : Action α} (hx : Agrees O P x y)
    (hx' : Agrees O P x' y') : Agrees O P (if c then x else x') (if c then y else y') := by
  split
  · exact hx
  · exact hx'

theorem ofExcept {r : Except Fault α} (h : ResultIn P r) :
    Agrees O P (Action.ofExcept r) (Action.ofExcept r) := by
  cases r with
  | ok a => exact pure (h a rfl)
  | error e => exact fail e

theorem ofExcept_any (r : Except Fault α) :
    Agrees O (fun _ => True) (Action.ofExcept r) (Action.ofExcept r) :=
  ofExcept fun _ _ => trivial

theorem ofExcept_atom {r : Except Fault Value} (h : Value.AtomIn r) :
    Agrees O (Value.Rooted O) (Action.ofExcept r) (Action.ofExcept r) :=
  ofExcept (h.imp fun _ => Value.rooted_of_isAtom)

theorem heap : Agrees O (Heap.Rooted O) Action.heap Action.heap := self fun _ hw => ⟨hw.heap, hw⟩

theorem context : Agrees O (Context.Rooted O) Action.context Action.context :=
  self fun _ hw => ⟨hw.context, hw⟩

theorem isResolved : Agrees O (fun _ => True) Action.isResolved Action.isResolved :=
  self fun _ hw => ⟨trivial, hw⟩

theorem setResolved (b : Bool) :
    Agrees O (fun _ => True) (Action.setResolved b) (Action.setResolved b) :=
  self fun _ hw => ⟨trivial, hw.heap, hw.context.scopes, hw.context.stores, hw.context.vars⟩

theorem setCells {h : Heap} (hh : h.Rooted O) :
    Agrees O (fun _ => True) (Action.setCells h) (Action.setCells h) :=
  self fun _ hw => ⟨trivial, hh, hw.context⟩

theorem build {f : Heap → Value × Heap}
    (hf : ∀ h : Heap, h.Rooted O → (f h).1.Rooted O ∧ (f h).2.Rooted O) :
    Agrees O (Value.Rooted O) (Action.build f) (Action.build f) :=
  heap.bind fun h hh => (setCells (hf h hh).2).bind fun _ _ => pure (hf h hh).1

theorem setStore (i : Nat) (name : String) {v : Value} (hv : v.Rooted O) :
    Agrees O (fun _ => True)
      (Action.modifyContext fun c => c.setStore i ((c.store i).insert name v))
      (Action.modifyContext fun c => c.setStore i ((c.store i).insert name v)) :=
  self fun _ hw => ⟨trivial, hw.heap, hw.context.setStore i ((hw.context.stores i).insert name hv)⟩

theorem notify (e : Event) : Agrees O (fun _ => True) (Action.notify e) (Action.notify e) := by
  refine self fun w hw => ?_
  have hlog : World.Rooted O { w with log := e :: w.log } := ⟨hw.heap, hw.context⟩
  simp only [Action.notify]
  split
  · exact hlog
  · exact ⟨trivial, hlog⟩

theorem claim (base property : Value) :
    Agrees O (fun _ => True) (Action.claim base property) (Action.claim base property) :=
  (setResolved true).bind fun _ _ => heap.bind fun _ _ => notify _

theorem attempt (hx : Agrees O P x y) :
    Agrees O (ResultIn P) (Action.attempt x) (Action.attempt y) := by
  intro w hw
  obtain ⟨heq, hrooted⟩ := hx w hw
  unfold Action.attempt
  rw [← heq]
  refine ⟨rfl, ?_⟩
  revert hrooted
  cases x w with
  | value a u => exact fun h => ⟨ResultIn.ok_iff.mpr h.1, h.2⟩
  | fault e u => exact fun h => ⟨ResultIn.error, h⟩
  | exhausted => exact id

theorem withScope {s : Bindings Value} (hs : s.Rooted O) (hx : Agrees O P x y) :
    Agrees O P (withScope s x) (withScope s y) := by
  intro w hw
  have hpushed : (w.pushed s).Rooted O := ⟨hw.heap,
    List.forall_mem_cons.mpr ⟨hs, hw.context.scopes⟩, hw.context.stores, hw.context.vars⟩
  have popped {u : World} (hu : u.Rooted O) : u.popped.Rooted O := ⟨hu.heap,
    fun t ht => hu.context.scopes t (List.mem_of_mem_tail ht), hu.context.stores, hu.context.vars⟩
  obtain ⟨heq, hrooted⟩ := hx _ hpushed
  rw [withScope_apply, withScope_apply, ← heq]
  refine ⟨rfl, ?_⟩
  revert hrooted
  cases x (w.pushed s) with
  | value a u => exact fun h => ⟨h.1, popped h.2⟩
  | fault e u => exact fun h => popped h
  | exhausted => exact id

theorem bracketed (text : String) (hx : Agrees O P x y) :
    Agrees O P (bracketed text x) (bracketed text y) :=
  (notify _).bind fun _ _ => hx.bind fun _ ha => (notify _).bind fun _ _ => pure ha

/-! ## The chain of resolvers -/

section Chain
variable {answer answer' : Answerer} {q : Request α}

mutual

theorem ask (hq : P q.neutral) (ha : ∀ r : Resolver, Agrees O P (answer r q) (answer' r q)) :
    ∀ r : Resolver, Agrees O P (r.ask answer q) (r.ask answer' q)
  | .group members => by
    rw [Resolver.ask, Resolver.ask]
    exact (setResolved false).bind fun _ _ => askAll hq ha members
  | .names _ | .statics | .maps _ | .lists _ | .arrays _ | .records | .beans _ | .custom _ => by
    rw [Resolver.ask, Resolver.ask]
    · exact ha _
    all_goals rintro _ ⟨⟩

theorem askAll (hq : P q.neutral) (ha : ∀ r : Resolver, Agrees O P (answer r q) (answer' r q)) :
    ∀ rs : List Resolver, Agrees O P (askAll answer rs q) (askAll answer' rs q)
  | [] => by
    rw [ExprLang.askAll, ExprLang.askAll]
    exact pure hq
  | r :: rs => by
    rw [ExprLang.askAll, ExprLang.askAll]
    exact (ask hq ha r).bind fun _ hb => isResolved.bind fun _ _ =>
      ite (pure hb) (askAll hq ha rs)

end

theorem askChain (hq : P q.neutral) (ha : ∀ r : Resolver, Agrees O P (answer r q) (answer' r q)) :
    Agrees O P (askChain answer q) (askChain answer' q) :=
  context.bind fun c _ => ask hq ha (.group c.layout.resolvers)

end Chain

end Action.Agrees

/-! ## Requests and tasks -/

/-- All that a request is given is rooted. -/
def Request.Rooted (O : Origin) : {α : Type} → Request α → Prop
  | _, .get base property => base.Rooted O ∧ property.Rooted O
  | _, .type base property => base.Rooted O ∧ property.Rooted O
  | _, .set base property v => base.Rooted O ∧ property.Rooted O ∧ v.Rooted O
  | _, .readOnly base property => base.Rooted O ∧ property.Rooted O
  | _, .invoke base method _ args => base.Rooted O ∧ method.Rooted O ∧ ∀ v ∈ args, v.Rooted O
  | _, .convert v _ => v.Rooted O

/-- The answer, if it is a value, is rooted. -/
def Request.Gives (O : Origin) : {α : Type} → Request α → α → Prop
  | _, .get _ _ => Value.Rooted O
  | _, .type _ _ => fun _ => True
  | _, .set _ _ _ => fun _ => True
  | _, .readOnly _ _ => fun _ => True
  | _, .invoke _ _ _ _ => Value.Rooted O
  | _, .convert _ _ => Value.Rooted O

theorem Request.gives_neutral (q : Request α) : q.Gives O q.neutral := by
  cases q <;> first | trivial | exact Value.rooted_null

/-- The tree of a task grows from a root with its bindings, and may name a method if it has to, and all
else that the task is given is rooted. -/
def Task.Rooted (O : Origin) : {α : Type} → Task α → Prop
  | _, .eval b n => b.Rooted O n.parts
  | _, .assign b n v => b.Rooted O n.parts ∧ v.Rooted O
  | _, .typeOf b n => b.Rooted O n.parts
  | _, .readOnly b n => b.Rooted O n.parts
  | _, .invoke b n _ args => (b.Rooted O n.parts ∧ O.targets n) ∧ ∀ v ∈ args, v.Rooted O
  | _, .info b n _ => b.Rooted O n.parts ∧ O.targets n

/-- The result, if it is a value, is rooted. -/
def Task.Gives (O : Origin) : {α : Type} → Task α → α → Prop
  | _, .eval _ _ => Value.Rooted O
  | _, .assign _ _ _ => fun _ => True
  | _, .typeOf _ _ => fun _ => True
  | _, .readOnly _ _ => fun _ => True
  | _, .invoke _ _ _ _ => Value.Rooted O
  | _, .info _ _ _ => fun _ => True

/-! ## What the host does -/

/-- The code uses only lambdas and expressions that are rooted, if those that it is given are. -/
def HostCode.Preserves (O : Origin) : HostCode → Prop
  | .finish r => ResultIn (Value.Rooted O) r
  | .read next => ∀ h : Heap, h.Rooted O → (next h).Preserves O
  | .write h next => h.Rooted O ∧ next.Preserves O
  | .bean _ next => ∀ found, (∀ v, found = some v → v.Rooted O) → (next found).Preserves O
  | .call f args next => f.Rooted O ∧ (∀ v ∈ args, v.Rooted O) ∧
      ∀ r, ResultIn (Value.Rooted O) r → (next r).Preserves O
  | .evaluate _ next => ∀ r, ResultIn (Value.Rooted O) r → (next r).Preserves O
  | .typeOf _ next => ∀ r, (next r).Preserves O
  | .readOnly _ next => ∀ r, (next r).Preserves O
  | .assign _ v next => v.Rooted O ∧ ∀ r, (next r).Preserves O

/-- The code of a method does so, given a receiver and arguments that are rooted. -/
def Declaration.Preserves (O : Origin) (d : Declaration) : Prop :=
  ∀ code, d.body = some code → ∀ (self : Value) (args : List Value), self.Rooted O →
    (∀ v ∈ args, v.Rooted O) → (code self args).Preserves O

/-- Methods, constants and resolvers of the host bring only lambdas and expressions that are rooted. -/
structure Host.Preserves (O : Origin) (host : Host) : Prop where
  methods (m : Method) : host.classes.Declares m → m.Preserves O
  fields (c : ClassId) : ∀ f ∈ (host.classes.members c).fields, f.value.Rooted O
  resolvers {α : Type} (i : Nat) (q : Request α) (w : World) : q.Rooted O → w.Rooted O →
    (host.custom i q w).Rooted O (q.Gives O)

/-- Trees of texts are roots, with what they take from any context, and may name methods where the
factory takes them for method expressions. -/
structure Origin.Admits (O : Origin) (t : ClassTable) : Prop where
  root {text : String} {n : Node} {source b : Bound} : parseTemplate text = .ok n →
    Bound.capture t source n = .ok b → O.roots b n
  target {text : String} {n : Node} : parseTemplate text = .ok n → n.isMethodTarget = true →
    (∀ content, n ≠ .plain content) → O.targets n

/-- Two handlers agree on all tasks that are rooted. -/
def Handler.Agrees (O : Origin) (handle other : Handler) : Prop :=
  ∀ {α : Type} (t : Task α), t.Rooted O → Action.Agrees O (t.Gives O) (handle t) (other t)

/-- What steps with either handler rely on. -/
structure Agreement (O : Origin) (host : Host) (handle other : Handler) : Prop where
  preserves : host.Preserves O
  origin : O.Admits host.classes
  handler : Handler.Agrees O handle other

/-! ## Conversions -/

section Conversion
variable {host : Host} (hp : host.Preserves O) {v : Value}
include hp

theorem custom_agrees (i : Nat) {q : Request α} (hq : q.Rooted O) :
    Agrees O (q.Gives O) (host.custom i q) (host.custom i q) :=
  .self fun w hw => hp.resolvers i q w hq hw

theorem convert_agrees (t : TypeRef) (hv : v.Rooted O) :
    Agrees O (Value.Rooted O) (Conversion.convert host v t) (Conversion.convert host v t) := by
  have hask (r : Resolver) : Agrees O (Value.Rooted O) (Conversion.answer host r (.convert v t))
      (Conversion.answer host r (.convert v t)) := by
    cases r with
    | custom i => exact custom_agrees hp i (q := .convert v t) hv
    | _ => exact .pure Value.rooted_null
  refine Agrees.isResolved.bind fun before _ => (Agrees.setResolved false).bind fun _ _ =>
    (Agrees.askChain Value.rooted_null hask).attempt.bind fun r hr => Agrees.isResolved.bind
    fun claimed _ => (Agrees.setResolved before).bind fun _ _ =>
    (Agrees.ofExcept hr).bind fun converted hconverted => .ite (.pure hconverted) ?_
  refine Agrees.heap.bind fun h _ => .ofExcept ?_
  exact (Coercion.toType_self_or_atom h t v).imp fun r hr =>
    hr.elim (fun he => he ▸ hv) Value.rooted_of_isAtom

theorem convertTo?_agrees (t : Option TypeRef) (hv : v.Rooted O) :
    Agrees O (Value.Rooted O) (Conversion.convertTo? host v t) (Conversion.convertTo? host v t) := by
  cases t with
  | none => exact .pure hv
  | some t => exact convert_agrees hp t hv

theorem convertAll_agrees (ts : List TypeRef) {vs : List Value} (hvs : ∀ v ∈ vs, v.Rooted O) :
    Agrees O (fun ws => ∀ w ∈ ws, w.Rooted O) (Method.convertAll host ts vs)
      (Method.convertAll host ts vs) := by
  induction vs generalizing ts with
  | nil => cases ts <;> exact .pure nofun
  | cons v vs ih =>
    obtain ⟨hv, hvs⟩ := List.forall_mem_cons.mp hvs
    cases ts with
    | nil => exact .pure nofun
    | cons t ts =>
      exact (convert_agrees hp t hv).bind fun w hw => (ih ts hvs).bind fun ws hws =>
        .pure (List.forall_mem_cons.mpr ⟨hw, hws⟩)

end Conversion

/-! ## Lambdas and expressions -/

/-- A tree takes all its variables from the context. -/
theorem Bound.Rooted.of_capture {t : ClassTable} (ho : O.Admits t) {c : Context} (hc : c.Rooted O)
    {text : String} {n : Node} {b : Bound} (hn : parseTemplate text = .ok n)
    (hb : Bound.capture t c.bound n = .ok b) : b.Rooted O n.parts :=
  .mk n (ho.root hn hb) (List.Subset.refl _) fun e he => hc.vars e (capture_vars hb he)

theorem expressionOf_rooted {t : ClassTable} (ho : O.Admits t) {c : Context} (hc : c.Rooted O)
    {text : String} : ResultIn (ValueExpr.Rooted O) (expressionOf t c text) := by
  intro e he
  obtain ⟨n, hn, he⟩ := ok_of_bind he
  obtain ⟨b, hb, he⟩ := ok_of_bind he
  cases he
  have hparse : parseTemplate text = .ok n := by
    cases hp : parseTemplate text with
    | ok m =>
      rw [hp] at hn
      cases hn
      rfl
    | error e =>
      rw [hp] at hn
      cases hn
  exact .parsed (.of_capture ho hc hparse hb)

section Code
variable {host : Host} {handle other : Handler} (ha : Agreement O host handle other)
include ha

theorem closure_agrees {f : Closure} {args : List Value} (hf : f.Rooted O)
    (hargs : ∀ v ∈ args, v.Rooted O) :
    Agrees O (Value.Rooted O) (f.invoke handle args) (f.invoke other args) :=
  .withScope (hf.scope hargs) (ha.handler (.eval f.bound f.body) hf.bound)

variable {e : ValueExpr}

theorem read_agrees (he : e.Rooted O) :
    Agrees O (Value.Rooted O) (e.read host handle) (e.read host other) := by
  cases e with
  | parsed text n b expected =>
    exact .bracketed text <| (ha.handler (.eval b n) he.bound).bind fun v hv =>
      convertTo?_agrees ha.preserves expected hv
  | literal v expected => exact convertTo?_agrees ha.preserves expected he.value

theorem readAs_agrees (he : e.Rooted O) (t : TypeRef) :
    Agrees O (Value.Rooted O) (e.readAs host handle t) (e.readAs host other t) := by
  cases e with
  | parsed text n b expected =>
    exact (Agrees.bracketed text (ha.handler (.eval b n) he.bound)).bind fun v hv =>
      convert_agrees ha.preserves t hv
  | literal v expected =>
    exact (Agrees.pure he.value).bind fun v hv => convert_agrees ha.preserves t hv

theorem write_agrees (he : e.Rooted O) {v : Value} (hv : v.Rooted O) :
    Agrees O (fun _ => True) (e.write handle v) (e.write other v) := by
  cases e with
  | parsed text n b expected => exact .bracketed text (ha.handler (.assign b n v) ⟨he.bound, hv⟩)
  | literal w expected => exact Agrees.heap.bind fun _ _ => .fail _

theorem isReadOnly_agrees (he : e.Rooted O) :
    Agrees O (fun _ => True) (e.isReadOnly handle) (e.isReadOnly other) := by
  cases e with
  | parsed text n b expected => exact ha.handler (.readOnly b n) he.bound
  | literal w expected => exact .pure trivial

theorem type?_agrees (he : e.Rooted O) :
    Agrees O (fun _ => True) (e.type? handle) (e.type? other) := by
  cases e with
  | parsed text n b expected => exact ha.handler (.typeOf b n) he.bound
  | literal w expected => exact .pure trivial

variable {m : MethodExpr}

theorem methodExpr_invoke_agrees (hm : m.Rooted O) {args : List Value}
    (hargs : ∀ v ∈ args, v.Rooted O) :
    Agrees O (Value.Rooted O) (m.invoke host handle args) (m.invoke host other args) := by
  cases m with
  | parsed text n b returns params =>
    exact .bracketed text (ha.handler (.invoke b n params args) ⟨⟨hm.bound, hm.target⟩, hargs⟩)
  | plain text returns params =>
    have htext : (Value.text text).Rooted O := Value.rooted_of_isAtom rfl
    rcases returns with _ | t
    · exact .pure htext
    · cases t <;> first | exact .pure htext | exact convert_agrees ha.preserves _ htext

theorem methodExpr_info_agrees (hm : m.Rooted O) :
    Agrees O (fun _ => True) (m.info handle) (m.info other) := by
  cases m with
  | parsed text n b returns params =>
    exact ha.handler (.info b n params) ⟨hm.bound, hm.target⟩
  | plain text returns params => exact .pure trivial

/-! ## Code of the host -/

theorem withText_agrees {P : α → Prop} (text : String) {use use' : ValueExpr → Action α}
    (hu : ∀ e, e.Rooted O → Agrees O P (use e) (use' e)) :
    Agrees O (ResultIn P) (withText host text use) (withText host text use') :=
  .attempt <| Agrees.context.bind fun _ hc =>
    (Agrees.ofExcept (expressionOf_rooted ha.origin hc)).bind hu

theorem perform_agrees {code : HostCode} (hc : code.Preserves O) :
    Agrees O (ResultIn (Value.Rooted O)) (code.perform host handle) (code.perform host other) := by
  induction code with
  | finish r => exact .pure hc
  | read next ih => exact Agrees.heap.bind fun h hh => ih h (hc h hh)
  | write h next ih => exact (Agrees.setCells hc.1).bind fun _ _ => ih hc.2
  | bean name next ih =>
    exact Agrees.context.bind fun c hctx => ih _ (hc _ fun _ hv => hctx.bean? hv)
  | call f args next ih =>
    obtain ⟨hf, hargs, hnext⟩ := hc
    exact (closure_agrees ha hf hargs).attempt.bind fun r hr => ih r (hnext r hr)
  | evaluate text next ih =>
    exact (withText_agrees ha text fun e he => read_agrees ha he).bind fun r hr => ih r (hc r hr)
  | typeOf text next ih =>
    exact (withText_agrees ha text fun e he => type?_agrees ha he).bind fun r _ => ih r (hc r)
  | readOnly text next ih =>
    exact (withText_agrees ha text fun e he => isReadOnly_agrees ha he).bind fun r _ => ih r (hc r)
  | assign text v next ih =>
    exact (withText_agrees ha text fun e he => write_agrees ha he hc.1).bind fun r _ =>
      ih r (hc.2 r)

theorem method_run_agrees {f : Method} (hf : host.classes.Declares f) {self : Value}
    {args : List Value}
    (hself : self.Rooted O) (hargs : ∀ v ∈ args, v.Rooted O) :
    Agrees O (Value.Rooted O) (f.run host handle self args) (f.run host other self args) := by
  unfold Method.run
  cases hbody : f.body with
  | none => exact Agrees.heap.bind fun _ _ => .fail _
  | some code =>
    have hcode := ha.preserves.methods f hf code hbody self args hself hargs
    refine (perform_agrees ha hcode).bind fun r hr => ?_
    cases r with
    | ok v => exact .pure (hr v rfl)
    | error e => exact .fail _

theorem method_invoke_agrees {f : Method} (hf : host.classes.Declares f) {self : Value}
    {args : List Value} (hself : self.Rooted O) (hargs : ∀ v ∈ args, v.Rooted O) :
    Agrees O (Value.Rooted O) (f.invoke host handle self args) (f.invoke host other self args) := by
  refine Agrees.heap.bind fun h _ => ?_
  split
  · have hspare : ∀ v ∈ args.drop f.fixed.length, v.Rooted O := fun v hv =>
      hargs v (List.mem_of_mem_drop hv)
    refine (convertAll_agrees ha.preserves _ hargs).bind fun fixed hfixed =>
      (convertAll_agrees ha.preserves _ hspare).bind fun rest hrest =>
      (Agrees.build fun h hh => hh.newArray _ hrest).bind fun gathered hgathered => ?_
    exact method_run_agrees ha hf hself
      (List.forall_mem_append.mpr ⟨hfixed, List.forall_mem_singleton.mpr hgathered⟩)
  · exact .ite ((convertAll_agrees ha.preserves _ hargs).bind fun vs hvs =>
      method_run_agrees ha hf hself hvs) (.fail _)

end Code

end ExprLang
