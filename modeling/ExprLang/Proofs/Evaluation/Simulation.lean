import ExprLang.Evaluation.Step
import ExprLang.Proofs.Action
import ExprLang.Proofs.Declared
import ExprLang.Proofs.Value.Alike

/-! Computations that do the same in worlds that are alike. -/

namespace ExprLang

variable {α β γ δ ε : Type} {t : ClassTable}

/-- Results that are related values or the same fault. -/
inductive ExceptRel (r : α → β → Prop) : Except ε α → Except ε β → Prop where
  | ok {a : α} {b : β} : r a b → ExceptRel r (.ok a) (.ok b)
  | error (e : ε) : ExceptRel r (.error e) (.error e)

namespace ExceptRel

theorem of_eq {x y : Except ε α} (h : x = y) : ExceptRel Eq x y := by
  subst h
  cases x with
  | ok a => exact .ok rfl
  | error e => exact .error e

theorem bind {r : α → β → Prop} {s : γ → δ → Prop} {x : Except ε α} {y : Except ε β}
    {f : α → Except ε γ} {g : β → Except ε δ} (h : ExceptRel r x y)
    (hfg : ∀ a b, r a b → ExceptRel s (f a) (g b)) : ExceptRel s (x >>= f) (y >>= g) := by
  cases h with
  | ok hab => exact hfg _ _ hab
  | error e => exact .error e

theorem mono {r s : α → β → Prop} {x : Except ε α} {y : Except ε β} (h : ExceptRel r x y)
    (hrs : ∀ a b, r a b → s a b) : ExceptRel s x y := by
  cases h with
  | ok hab => exact .ok (hrs _ _ hab)
  | error e => exact .error e

theorem eq {x y : Except ε α} (h : ExceptRel Eq x y) : x = y := by
  cases h with
  | ok hab => rw [hab]
  | error e => rfl

end ExceptRel

/-- Outcomes that end alike. -/
inductive Outcome.Alike (t : ClassTable) (r : α → β → Prop) : Outcome α → Outcome β → Prop where
  | value {a : α} {b : β} {w u : World} : r a b → World.Alike t w u →
    Alike t r (.value a w) (.value b u)
  | fault (e : Fault) {w u : World} : World.Alike t w u → Alike t r (.fault e w) (.fault e u)
  | exhausted : Alike t r .exhausted .exhausted

/-- Computations that end alike in worlds that are alike. -/
def Action.Sim (t : ClassTable) (r : α → β → Prop) (x : Action α) (y : Action β) : Prop :=
  ∀ w u, World.Alike t w u → Outcome.Alike t r (x w) (y u)

open ExprLang.Action (Sim)

namespace Action.Sim

variable {r : α → β → Prop} {s : γ → δ → Prop}

theorem pure {a : α} {b : β} (h : r a b) : Sim t r (pure a) (pure b) :=
  fun _ _ hw => .value h hw

theorem fail (e : Fault) : Sim t r (Action.fail e) (Action.fail e) :=
  fun _ _ hw => .fault e hw

theorem heap : Sim t (Heap.Alike t) Action.heap Action.heap :=
  fun _ _ hw => .value hw.heap hw

theorem context : Sim t (Context.Alike t) Action.context Action.context :=
  fun _ _ hw => .value hw.context hw

theorem isResolved : Sim t Eq Action.isResolved Action.isResolved :=
  fun _ _ hw => .value hw.context.resolved hw

theorem bind {x : Action α} {y : Action β} {f : α → Action γ} {g : β → Action δ}
    (h : Sim t r x y) (hfg : ∀ a b, r a b → Sim t s (f a) (g b)) :
    Sim t s (x >>= f) (y >>= g) := by
  intro w u hw
  have ho := h w u hw
  generalize hx : x w = o at ho
  generalize hy : y u = p at ho
  cases ho with
  | value hab hv =>
    rw [bind_value hx, bind_value hy]
    exact hfg _ _ hab _ _ hv
  | fault e hv =>
    rw [bind_fault hx, bind_fault hy]
    exact .fault e hv
  | exhausted =>
    rw [bind_exhausted hx, bind_exhausted hy]
    exact .exhausted

theorem map {x : Action α} {y : Action β} {f : α → γ} {g : β → δ} (h : Sim t r x y)
    (hfg : ∀ a b, r a b → s (f a) (g b)) : Sim t s (f <$> x) (g <$> y) := by
  rw [map_eq_pure_bind, map_eq_pure_bind]
  exact h.bind fun a b hab => pure (hfg a b hab)

theorem ofExcept {x : Except Fault α} {y : Except Fault β} (h : ExceptRel r x y) :
    Sim t r (Action.ofExcept x) (Action.ofExcept y) := by
  cases h with
  | ok hab => exact pure hab
  | error e => exact fail e

/-- A result that is the same on both sides. -/
theorem ofExcept_eq {x y : Except Fault α} (h : x = y) :
    Sim t Eq (Action.ofExcept x) (Action.ofExcept y) :=
  ofExcept (.of_eq h)

/-- The result is the same on both sides, and it is that of `x`. -/
theorem ofExcept_self (x : Except Fault α) :
    Sim t (fun a b => a = b ∧ x = .ok a) (Action.ofExcept x) (Action.ofExcept x) := by
  cases x with
  | ok a => exact pure ⟨rfl, rfl⟩
  | error e => exact fail e

theorem attempt {x : Action α} {y : Action β} (h : Sim t r x y) :
    Sim t (ExceptRel r) (Action.attempt x) (Action.attempt y) := by
  intro w u hw
  have ho := h w u hw
  simp only [Action.attempt]
  generalize x w = o at ho
  generalize y u = p at ho
  cases ho with
  | value hab hv => exact .value (.ok hab) hv
  | fault e hv => exact .value (.error e) hv
  | exhausted => exact .exhausted

theorem ite {c d : Prop} [Decidable c] [Decidable d] (hcd : c ↔ d) {x x' : Action α}
    {y y' : Action β} (hx : Sim t r x y) (hy : Sim t r x' y') :
    Sim t r (if c then x else x') (if d then y else y') := by
  by_cases hc : c
  · rw [if_pos hc, if_pos (hcd.mp hc)]
    exact hx
  · rw [if_neg hc, if_neg fun hd => hc (hcd.mpr hd)]
    exact hy

/-- A branch on a truth value that is the same on both sides. -/
theorem ite_eq {b c : Bool} (hbc : b = c) {x x' : Action α} {y y' : Action β}
    (hx : Sim t r x y) (hy : Sim t r x' y') :
    Sim t r (if b then x else x') (if c then y else y') :=
  ite (by rw [hbc]) hx hy

theorem modifyContext {f g : Context → Context}
    (hfg : ∀ c d, Context.Alike t c d → Context.Alike t (f c) (g d)) :
    Sim t Eq (Action.modifyContext f) (Action.modifyContext g) :=
  fun _ _ hw => .value rfl ⟨hw.heap, hfg _ _ hw.context, hw.log⟩

theorem setResolved {b c : Bool} (h : b = c) :
    Sim t Eq (Action.setResolved b) (Action.setResolved c) :=
  modifyContext fun _ _ hcd => { hcd with resolved := h }

theorem setCells {h k : Heap} (hh : Heap.Alike t h k) :
    Sim t Eq (Action.setCells h) (Action.setCells k) :=
  fun _ _ hw => .value rfl ⟨hw.heap.setCells hh.cells, hw.context, hw.log⟩

theorem build {f : Heap → Value × Heap} {g : Heap → Value × Heap}
    (hfg : ∀ h k, Heap.Alike t h k → Value.Alike t (f h).1 (g k).1 ∧
      Heap.Alike t (f h).2 (g k).2) : Sim t (Value.Alike t) (Action.build f) (Action.build g) :=
  bind heap fun h k hh => bind (setCells (hfg h k hh).2) fun _ _ _ => pure (hfg h k hh).1

theorem notify (e : Event) : Sim t Eq (Action.notify e) (Action.notify e) := by
  intro w u hw
  have hlog : World.Alike t { w with log := e :: w.log } { u with log := e :: u.log } :=
    ⟨hw.heap, hw.context, congrArg (e :: ·) hw.log⟩
  simp only [Action.notify, hw.context.listeners]
  split
  · exact .fault _ hlog
  · exact .value rfl hlog

theorem claim {v w p q : Value} (hv : Value.Alike t v w) (hp : Value.Alike t p q) :
    Sim t Eq (Action.claim v p) (Action.claim w q) :=
  bind (setResolved rfl) fun _ _ _ => bind heap fun h k hh => by
    rw [hh.typeName hv, hh.display hp]
    exact notify _

end Action.Sim

/-! ## Requests and tasks -/

/-- Requests for the same with values that are alike, and how their answers are related. -/
inductive Request.Alike (t : ClassTable) :
    {α : Type} → (α → α → Prop) → Request α → Request α → Prop where
  | get {b c p q : Value} : Value.Alike t b c → Value.Alike t p q →
    Alike t (Value.Alike t) (.get b p) (.get c q)
  | type {b c p q : Value} : Value.Alike t b c → Value.Alike t p q →
    Alike t Eq (.type b p) (.type c q)
  | set {b c p q v w : Value} : Value.Alike t b c → Value.Alike t p q → Value.Alike t v w →
    Alike t Eq (.set b p v) (.set c q w)
  | readOnly {b c p q : Value} : Value.Alike t b c → Value.Alike t p q →
    Alike t Eq (.readOnly b p) (.readOnly c q)
  | invoke {b c m n : Value} (types : Option (List TypeRef)) {vs ws : List Value} :
    Value.Alike t b c → Value.Alike t m n → List.Forall₂ (Value.Alike t) vs ws →
    Alike t (Value.Alike t) (.invoke b m types vs) (.invoke c n types ws)
  | convert {v w : Value} (type : TypeRef) : Value.Alike t v w →
    Alike t (Value.Alike t) (.convert v type) (.convert w type)

/-- Tasks on the same tree with values that are alike and with bindings that agree on what the tree
mentions, and how their results are related. -/
inductive Task.Alike (t : ClassTable) : {α : Type} → (α → α → Prop) → Task α → Task α → Prop where
  | eval {b c : Bound} {n : Node} : Bound.Agree t n.parts b c →
    Alike t (Value.Alike t) (.eval b n) (.eval c n)
  | assign {b c : Bound} {n : Node} {v w : Value} : Bound.Agree t n.parts b c →
    Value.Alike t v w → Alike t Eq (.assign b n v) (.assign c n w)
  | typeOf {b c : Bound} {n : Node} : Bound.Agree t n.parts b c →
    Alike t Eq (.typeOf b n) (.typeOf c n)
  | readOnly {b c : Bound} {n : Node} : Bound.Agree t n.parts b c →
    Alike t Eq (.readOnly b n) (.readOnly c n)
  | invoke {b c : Bound} {n : Node} (types : Option (List TypeRef)) {vs ws : List Value} :
    Bound.Agree t n.parts b c → List.Forall₂ (Value.Alike t) vs ws →
    Alike t (Value.Alike t) (.invoke b n types vs) (.invoke c n types ws)
  | info {b c : Bound} {n : Node} (types : Option (List TypeRef)) : Bound.Agree t n.parts b c →
    Alike t Eq (.info b n types) (.info c n types)

theorem Request.Alike.neutral {r : α → α → Prop} {q q' : Request α}
    (h : Request.Alike t r q q') : r q.neutral q'.neutral := by
  cases h <;> first | exact .same _ | rfl

/-- Code that does the same where it meets values that are alike: it sees the parameters and the body
of a lambda, and may call it, but it does not see what the lambda was built with. -/
inductive HostCode.Alike (t : ClassTable) : HostCode → HostCode → Prop where
  | finish {r s : Except Failure Value} : ExceptRel (Value.Alike t) r s →
    Alike t (.finish r) (.finish s)
  | read {f g : Heap → HostCode} : (∀ h k, Heap.Alike t h k → Alike t (f h) (g k)) →
    Alike t (.read f) (.read g)
  | write {h k : Heap} {x y : HostCode} : Heap.Alike t h k → Alike t x y →
    Alike t (.write h x) (.write k y)
  | bean (name : String) {f g : Option Value → HostCode} :
    (∀ a b, Option.Rel (Value.Alike t) a b → Alike t (f a) (g b)) →
    Alike t (.bean name f) (.bean name g)
  | call {f g : Closure} {vs ws : List Value} {x y : Except Fault Value → HostCode} :
    Value.Alike t (.lambda f) (.lambda g) → List.Forall₂ (Value.Alike t) vs ws →
    (∀ r s, ExceptRel (Value.Alike t) r s → Alike t (x r) (y s)) →
    Alike t (.call f vs x) (.call g ws y)
  | evaluate (text : String) {x y : Except Fault Value → HostCode} :
    (∀ r s, ExceptRel (Value.Alike t) r s → Alike t (x r) (y s)) →
    Alike t (.evaluate text x) (.evaluate text y)
  | typeOf (text : String) {x y : Except Fault (Option TypeRef) → HostCode} :
    (∀ r, Alike t (x r) (y r)) → Alike t (.typeOf text x) (.typeOf text y)
  | readOnly (text : String) {x y : Except Fault Bool → HostCode} :
    (∀ r, Alike t (x r) (y r)) → Alike t (.readOnly text x) (.readOnly text y)
  | assign (text : String) {v w : Value} {x y : Except Fault Unit → HostCode} :
    Value.Alike t v w → (∀ r, Alike t (x r) (y r)) →
    Alike t (.assign text v x) (.assign text w y)

/-- The code of a method does not see what lambdas were built with. -/
def Declaration.Blind (t : ClassTable) (d : Declaration) : Prop :=
  ∀ code, d.body = some code → ∀ v w vs ws, Value.Alike t v w →
    List.Forall₂ (Value.Alike t) vs ws → HostCode.Alike t (code v vs) (code w ws)

/-- Neither the methods of classes nor the resolvers of the host see what lambdas were built with. -/
structure Host.Blind (host : Host) : Prop where
  methods (m : Method) : host.classes.Declares m → m.Blind host.classes
  resolvers {α : Type} (i : Nat) {r : α → α → Prop} {q q' : Request α} :
    Request.Alike host.classes r q q' → Sim host.classes r (host.custom i q) (host.custom i q')

/-- A handler does the same for tasks that are alike. -/
def Handler.Respects (t : ClassTable) (handle : Handler) : Prop :=
  ∀ {α : Type} {r : α → α → Prop} {k k' : Task α}, Task.Alike t r k k' →
    Sim t r (handle k) (handle k')

/-- What a step of the evaluator relies on. -/
structure Faithful (host : Host) (handle : Handler) : Prop where
  blind : host.Blind
  handler : handle.Respects host.classes

/-! ## The chain of resolvers -/

section Chain
variable {answer : Answerer} {r : α → α → Prop} {q q' : Request α}

mutual

theorem ask_sim (hn : r q.neutral q'.neutral)
    (ha : ∀ m : Resolver, Sim t r (answer m q) (answer m q')) :
    ∀ m : Resolver, Sim t r (m.ask answer q) (m.ask answer q')
  | .group members => by
    rw [Resolver.ask, Resolver.ask]
    exact .bind (.setResolved rfl) fun _ _ _ => askAll_sim hn ha members
  | .names _ | .statics | .maps _ | .lists _ | .arrays _ | .records | .beans _ | .custom _ => by
    rw [Resolver.ask, Resolver.ask]
    · exact ha _
    all_goals rintro _ ⟨⟩

theorem askAll_sim (hn : r q.neutral q'.neutral)
    (ha : ∀ m : Resolver, Sim t r (answer m q) (answer m q')) :
    ∀ ms : List Resolver, Sim t r (askAll answer ms q) (askAll answer ms q')
  | [] => by
    rw [askAll, askAll]
    exact .pure hn
  | m :: ms => by
    rw [askAll, askAll]
    exact .bind (ask_sim hn ha m) fun a b hab => .bind .isResolved fun _ _ hc =>
      .ite_eq hc (.pure hab) (askAll_sim hn ha ms)

end

theorem askChain_sim (hn : r q.neutral q'.neutral)
    (ha : ∀ m : Resolver, Sim t r (answer m q) (answer m q')) :
    Sim t r (askChain answer q) (askChain answer q') :=
  .bind .context fun c d hcd => by
    rw [hcd.layout]
    exact ask_sim hn ha (.group d.layout.resolvers)

end Chain

/-! ## Conversions -/

/-- A computed value is alike itself. -/
theorem ExceptRel.alike_of_eq {x y : Except ε Value} (h : x = y) :
    ExceptRel (Value.Alike t) x y :=
  (ExceptRel.of_eq h).mono fun a _ hab => hab ▸ .same a

theorem Heap.Alike.toType {h k : Heap} {v w : Value} (hh : Heap.Alike t h k)
    (hv : Value.Alike t v w) (type : TypeRef) :
    ExceptRel (Value.Alike t) (Coercion.toType h type v) (Coercion.toType k type w) := by
  rcases (hh.resembles hv).toType type with ⟨e, hw, hv'⟩ | ⟨r, -, hw, hv'⟩ | ⟨hw, hv'⟩ <;>
    rw [hw, hv']
  · exact .error e
  · exact .ok (.same r)
  · exact .ok hv

section Conversion
variable {host : Host} (hb : host.Blind) {v w : Value}
include hb

theorem convert_sim (hv : Value.Alike host.classes v w) (type : TypeRef) :
    Sim host.classes (Value.Alike host.classes) (Conversion.convert host v type)
      (Conversion.convert host w type) := by
  refine .bind .isResolved fun b c hbc => .bind (.setResolved rfl) fun _ _ _ =>
    .bind (.attempt (askChain_sim (.same _) ?_)) fun r s hr => .bind .isResolved fun d e hde =>
    .bind (.setResolved hbc) fun _ _ _ => .bind (.ofExcept hr) fun x y hxy =>
    .ite_eq hde (.pure hxy) (.bind .heap fun h k hh => .ofExcept (hh.toType hv type))
  intro m
  cases m with
  | custom i => exact hb.resolvers i (.convert type hv)
  | _ => exact .pure (.same _)

theorem convertTo?_sim (hv : Value.Alike host.classes v w) (type : Option TypeRef) :
    Sim host.classes (Value.Alike host.classes) (Conversion.convertTo? host v type)
      (Conversion.convertTo? host w type) := by
  cases type with
  | none => exact .pure hv
  | some type => exact convert_sim hb hv type

theorem convertAll_sim {vs ws : List Value} (hv : List.Forall₂ (Value.Alike host.classes) vs ws) :
    ∀ types : List TypeRef, Sim host.classes (List.Forall₂ (Value.Alike host.classes))
      (Method.convertAll host types vs) (Method.convertAll host types ws) := by
  induction hv with
  | nil =>
    intro types
    cases types <;> exact .pure .nil
  | cons hv hrest ih =>
    intro types
    cases types with
    | nil => exact .pure .nil
    | cons type types =>
      exact .bind (convert_sim hb hv type) fun _ _ hv => .bind (ih types) fun _ _ hvs =>
        .pure (.cons hv hvs)

end Conversion

/-! ## Lambdas and expressions -/

theorem withScope_sim {r : α → β → Prop} {x : Action α} {y : Action β} {b c : Bindings Value}
    (hb : Bindings.Rel (Value.Alike t) b c) (h : Sim t r x y) :
    Sim t r (withScope b x) (withScope c y) :=
  .bind (.modifyContext fun _ _ hcd => { hcd with scopes := .cons hb hcd.scopes }) fun _ _ _ =>
    .bind (.attempt h) fun _ _ hr =>
    .bind (.modifyContext fun _ _ hcd => { hcd with scopes := tail_of_forall₂ hcd.scopes })
      fun _ _ _ => .ofExcept hr

theorem Closure.scope_alike {f g : Closure} {vs ws : List Value}
    (hf : Value.Alike t (.lambda f) (.lambda g)) (hv : List.Forall₂ (Value.Alike t) vs ws) :
    Bindings.Rel (Value.Alike t) (f.scope vs) (g.scope ws) := by
  simp only [Closure.scope, hf.params_eq]
  exact .insertAll hv _ hf.captured

theorem bracketed_sim {r : α → β → Prop} {x : Action α} {y : Action β} (text : String)
    (h : Sim t r x y) : Sim t r (bracketed text x) (bracketed text y) :=
  .bind (.notify _) fun _ _ _ => .bind h fun _ _ hab => .bind (.notify _) fun _ _ _ => .pure hab

/-- The same expression, or one of the same tree with bindings that agree on what it mentions. -/
inductive ValueExpr.Alike (t : ClassTable) : ValueExpr → ValueExpr → Prop where
  | literal (v : Value) (expected : Option TypeRef) :
    Alike t (.literal v expected) (.literal v expected)
  | parsed (text : String) (expected : Option TypeRef) {n : Node} {b c : Bound} :
    Bound.Agree t n.parts b c → Alike t (.parsed text n b expected) (.parsed text n c expected)

theorem ValueExpr.Alike.refl (t : ClassTable) (e : ValueExpr) : ValueExpr.Alike t e e := by
  cases e with
  | parsed text n b expected => exact .parsed text expected (.refl t _ b)
  | literal v expected => exact .literal v expected

section Code
variable {host : Host} {handle : Handler} (hf : Faithful host handle)
include hf

theorem closure_sim {f g : Closure} {vs ws : List Value}
    (hg : Value.Alike host.classes (.lambda f) (.lambda g))
    (hv : List.Forall₂ (Value.Alike host.classes) vs ws) :
    Sim host.classes (Value.Alike host.classes) (f.invoke handle vs) (g.invoke handle ws) := by
  refine withScope_sim (Closure.scope_alike hg hv) ?_
  rw [← hg.body_eq]
  exact hf.handler (.eval hg.agree)

variable {e e' : ValueExpr}

theorem read_sim (he : ValueExpr.Alike host.classes e e') :
    Sim host.classes (Value.Alike host.classes) (e.read host handle) (e'.read host handle) := by
  cases he with
  | literal v expected => exact convertTo?_sim hf.blind (.same v) expected
  | parsed text expected hb =>
    exact bracketed_sim text <| .bind (hf.handler (.eval hb)) fun _ _ hv =>
      convertTo?_sim hf.blind hv expected

theorem readAs_sim (he : ValueExpr.Alike host.classes e e') (type : TypeRef) :
    Sim host.classes (Value.Alike host.classes) (e.readAs host handle type)
      (e'.readAs host handle type) := by
  cases he with
  | literal v expected =>
    exact .bind (.pure (.same v)) fun _ _ hv => convert_sim hf.blind hv type
  | parsed text expected hb =>
    exact .bind (bracketed_sim text (hf.handler (.eval hb))) fun _ _ hv =>
      convert_sim hf.blind hv type

theorem write_sim (he : ValueExpr.Alike host.classes e e') {v w : Value}
    (hv : Value.Alike host.classes v w) :
    Sim host.classes Eq (e.write handle v) (e'.write handle w) := by
  cases he with
  | literal v expected =>
    exact .bind .heap fun h k hh => by
      rw [hh.display (.same v)]
      exact .fail _
  | parsed text expected hb => exact bracketed_sim text (hf.handler (.assign hb hv))

theorem isReadOnly_sim (he : ValueExpr.Alike host.classes e e') :
    Sim host.classes Eq (e.isReadOnly handle) (e'.isReadOnly handle) := by
  cases he with
  | literal v expected => exact .pure rfl
  | parsed text expected hb => exact hf.handler (.readOnly hb)

theorem type?_sim (he : ValueExpr.Alike host.classes e e') :
    Sim host.classes Eq (e.type? handle) (e'.type? handle) := by
  cases he with
  | literal v expected => exact .pure rfl
  | parsed text expected hb => exact hf.handler (.typeOf hb)

theorem methodExpr_invoke_sim (m : MethodExpr) {vs ws : List Value}
    (hv : List.Forall₂ (Value.Alike host.classes) vs ws) :
    Sim host.classes (Value.Alike host.classes) (m.invoke host handle vs)
      (m.invoke host handle ws) := by
  cases m with
  | parsed text node bound returns params =>
    exact bracketed_sim text (hf.handler (.invoke params (.refl _ _ _) hv))
  | plain text returns params =>
    rcases returns with _ | type
    · exact .pure (.same _)
    · cases type <;> first | exact .pure (.same _) | exact convert_sim hf.blind (.same _) _

theorem methodExpr_info_sim (m : MethodExpr) :
    Sim host.classes Eq (m.info handle) (m.info handle) := by
  cases m with
  | parsed text node bound returns params => exact hf.handler (.info params (.refl _ _ _))
  | plain text returns params => exact .pure rfl

/-! ## Methods -/

omit hf in
theorem withText_sim {r : α → β → Prop} (text : String) {use : ValueExpr → Action α}
    {use' : ValueExpr → Action β} (h : ∀ e, Sim host.classes r (use e) (use' e)) :
    Sim host.classes (ExceptRel r) (withText host text use) (withText host text use') := by
  refine .attempt (.bind .context fun c d hcd => ?_)
  have hbound : c.bound = d.bound := by simp only [Context.bound, hcd.functions, hcd.vars]
  have hexpr : expressionOf host.classes c text = expressionOf host.classes d text := by
    simp only [expressionOf, hbound]
  refine .bind (.ofExcept_eq hexpr) fun e _ he => ?_
  subst he
  exact h e

theorem perform_sim {x y : HostCode} (hxy : HostCode.Alike host.classes x y) :
    Sim host.classes (ExceptRel (Value.Alike host.classes)) (x.perform host handle)
      (y.perform host handle) := by
  induction hxy with
  | finish hr => exact .pure hr
  | read _ ih => exact .bind .heap fun h k hh => ih h k hh
  | write hh _ ih => exact .bind (.setCells hh) fun _ _ _ => ih
  | bean name _ ih => exact .bind .context fun c d hcd => ih _ _ (hcd.bean? name)
  | call hg hv _ ih => exact .bind (.attempt (closure_sim hf hg hv)) fun r s hr => ih r s hr
  | evaluate text _ ih =>
    exact .bind (withText_sim text fun e => read_sim hf (.refl _ e)) fun r s hr => ih r s hr
  | typeOf text _ ih =>
    exact .bind (withText_sim text fun e => type?_sim hf (.refl _ e)) fun r s hr =>
      hr.eq ▸ ih r
  | readOnly text _ ih =>
    exact .bind (withText_sim text fun e => isReadOnly_sim hf (.refl _ e)) fun r s hr =>
      hr.eq ▸ ih r
  | assign text hv _ ih =>
    exact .bind (withText_sim text fun e => write_sim hf (.refl _ e) hv) fun r s hr =>
      hr.eq ▸ ih r

theorem method_run_sim {m : Method} (hm : host.classes.Declares m) {v w : Value}
    {vs ws : List Value} (hv : Value.Alike host.classes v w)
    (hvs : List.Forall₂ (Value.Alike host.classes) vs ws) :
    Sim host.classes (Value.Alike host.classes) (m.run host handle v vs)
      (m.run host handle w ws) := by
  have hblind := hf.blind.methods m hm
  unfold Method.run
  cases hbody : m.body with
  | none =>
    exact .bind .heap fun h k hh => by
      rw [hh.lineage]
      exact .fail _
  | some code =>
    refine .bind (perform_sim hf (hblind code hbody v w vs ws hv hvs)) fun r s hr => ?_
    cases hr with
    | ok hab => exact .pure hab
    | error e => exact .fail _

omit hf in
theorem takesArray_eq {h k : Heap} (hh : Heap.Alike t h k) (m : Method) {vs ws : List Value}
    (hvs : List.Forall₂ (Value.Alike t) vs ws) : m.takesArray h vs = m.takesArray k ws := by
  have hlast : Option.Rel (Value.Alike t) vs.getLast? ws.getLast? := by
    rw [List.getLast?_eq_getElem?, List.getLast?_eq_getElem?, hvs.length_eq]
    exact getElem?_of_forall₂ hvs _
  simp only [Method.takesArray]
  generalize vs.getLast? = x at hlast
  generalize ws.getLast? = y at hlast
  cases m.gathers with
  | none => rfl
  | some component =>
    cases hlast with
    | none => rfl
    | @some a b hab =>
      cases hab with
      | lambda _ _ => rfl
      | same => cases a <;> simp only [hvs.length_eq, hh.lineage, (hh.array _).1]

theorem method_invoke_sim {m : Method} (hm : host.classes.Declares m) {v w : Value}
    {vs ws : List Value} (hv : Value.Alike host.classes v w)
    (hvs : List.Forall₂ (Value.Alike host.classes) vs ws) :
    Sim host.classes (Value.Alike host.classes) (m.invoke host handle v vs)
      (m.invoke host handle w ws) := by
  refine .bind .heap fun h k hh => ?_
  rw [takesArray_eq hh m hvs, hvs.length_eq, hh.lineage]
  have whole (f : Fault) : Sim host.classes (Value.Alike host.classes)
      (if ws.length = m.params.length then do
        let converted ← Method.convertAll host m.params vs
        m.run host handle v converted
      else Action.fail f)
      (if ws.length = m.params.length then do
        let converted ← Method.convertAll host m.params ws
        m.run host handle w converted
      else Action.fail f) :=
    .ite .rfl (.bind (convertAll_sim hf.blind hvs _) fun _ _ hxs => method_run_sim hf hm hv hxs)
      (.fail f)
  generalize m.takesArray k ws = taken
  cases m.gathers with
  | none => exact whole _
  | some component =>
    cases taken with
    | true => exact whole _
    | false =>
      have hspare := List.forall₂_drop m.fixed.length hvs
      have htypes : (vs.drop m.fixed.length).map (fun _ => component) =
          (ws.drop m.fixed.length).map fun _ => component :=
        map_eq_of_forall₂ (fun _ _ _ => rfl) hspare
      refine .bind (convertAll_sim hf.blind hvs _) fun xs ys hxs => ?_
      simp only [htypes]
      exact .bind (convertAll_sim hf.blind hspare _) fun rest rest' hrest =>
        .bind (.build fun h k hh => hh.newArray component hrest) fun a b hab =>
        method_run_sim hf hm hv (List.rel_append hxs (.cons hab .nil))

end Code

end ExprLang
