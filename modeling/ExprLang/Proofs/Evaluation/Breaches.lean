import ExprLang.Proofs.Builtin.Rooted
import ExprLang.Proofs.Evaluation.AgreeingRun
import ExprLang.Proofs.Number.Digits
import ExprLang.Proofs.Parser.Names
import ExprLang.Proofs.Template
import ExprLang.Proofs.Value.Arithmetic

/-! Some errors of the evaluator stand for what should not come up: a path that takes no step, operands
that did not become numbers of one kind, a method expression whose tree names no method. The trees of
texts rule them out, and so does the check that a method expression passes when it is built. So what
happens at such an error makes no difference to any evaluation. -/

namespace ExprLang

/-! ## Breaches -/

namespace Evaluation

/-- What should not come up in an evaluation. -/
inductive Breach where
  | emptyPath
  | noArgumentList (key : String)
  | eagerOperator (op : BinaryOp)
  | badInteger (text : String)
  | mismatch (m : Arithmetic.Mismatch)
  | notInvocable (kind : String)
  | namesNoMethod (kind : String)

namespace Breach

def fault : Breach → Fault
  | emptyPath => .emptyPath
  | noArgumentList key => .noArgumentList key
  | eagerOperator op => .stated .evaluation ("operator '" ++ op.sign ++ "' needs lazy operands") none
  | badInteger text => .badInteger text
  | mismatch m => .stated .evaluation m.text none
  | notInvocable kind => .notInvocable kind
  | namesNoMethod kind => .namesNoMethod kind

/-- A tree is used as a method and names none. -/
def isRefusal : Breach → Bool
  | notInvocable _ => true
  | namesNoMethod _ => true
  | _ => false

end Breach

/-- What happens at a breach. -/
abbrev Recovery := ∀ {α : Type}, Breach → Action α

/-- Breaches are the errors that they stand for. -/
def Recovery.strict : Recovery := fun e => Action.fail e.fault

/-- Refusals stay the errors that they are. -/
def Recovery.sparing (breach : Recovery) : Recovery := fun e =>
  if e.isRefusal then Action.fail e.fault else breach e

end Evaluation

namespace Node

/-- There is a case for the tree where a method is called or described. -/
def namesMethod : Node → Bool
  | deferred _ => true
  | dynamic _ => true
  | path _ _ => true
  | name _ => true
  | choice _ _ _ => true
  | sequence _ _ => true
  | _ => false

open Evaluation (Breach)

/-- The breach where the tree is read, if any. -/
def readBreach? : Node → Option Breach
  | call ns f [] => some (.noArgumentList (Bound.functionKey ns f))
  | integer t =>
    match Evaluation.integerLiteral t with
    | .ok _ => none
    | .error _ => some (.badInteger t)
  | _ => none

/-- The breach where the last step of the tree is looked for, if any. -/
def targetBreach? : Node → Option Breach
  | path _ [] => some .emptyPath
  | _ => none

end Node

/-- The breach that a task starts with, if any. -/
def Task.breach? : {α : Type} → Task α → Option Evaluation.Breach
  | _, .eval _ n => n.readBreach?
  | _, .assign _ n _ => n.targetBreach?
  | _, .typeOf _ n => n.targetBreach?
  | _, .readOnly _ n => n.targetBreach?
  | _, .invoke _ n _ _ =>
    n.targetBreach?.or (if n.namesMethod then none else some (.notInvocable n.kind))
  | _, .info _ n _ =>
    n.targetBreach?.or (if n.namesMethod then none else some (.namesNoMethod n.kind))

/-! ## The evaluator, apart from breaches -/

namespace Evaluation

variable (breach : Recovery) (host : Host) (handle : Handler)

/-- A result, where a mismatch is a breach. -/
def settle {α : Type} : Arithmetic.Result α → Action α
  | .ok a => pure a
  | .error (.inl m) => breach (.mismatch m)
  | .error (.inr e) => Action.fail e

/-- The value of a strict operator, with all its cases. -/
def strictBreached (h : Heap) (op : BinaryOp) (a b : Value) : Action Value :=
  match op with
  | .add => settle breach (Arithmetic.addPromoted h a b)
  | .sub => settle breach (Arithmetic.subPromoted h a b)
  | .mul => settle breach (Arithmetic.mulPromoted h a b)
  | .div => settle breach (Arithmetic.divPromoted h a b)
  | .mod => settle breach (Arithmetic.remPromoted h a b)
  | op =>
    if op.isLazy then breach (.eagerOperator op)
    else Action.ofExcept (applyStrict h op a b)

def binaryBreached (b : Bound) (op : BinaryOp) (left right : Node) : Action Value :=
  match op with
  | .and => binary handle b .and left right
  | .or => binary handle b .or left right
  | .elvis => binary handle b .elvis left right
  | .coalesce => binary handle b .coalesce left right
  | op => do
    let v ← handle (.eval b left)
    let w ← handle (.eval b right)
    strictBreached breach (← Action.heap) op v w

/-- The step of the evaluator for a task that starts with no breach. -/
def stepUnbreached : {α : Type} → Task α → Action α
  | _, .eval b (.binary op left right) => binaryBreached breach handle b op left right
  | _, t => step host handle t

/-- The step of the evaluator, apart from breaches. -/
def stepBreached {α : Type} (t : Task α) : Action α :=
  match t.breach? with
  | some e => breach e
  | none => stepUnbreached breach host handle t

/-- Carries out tasks as the evaluator does, apart from breaches. -/
def runBreached (depth : Nat) : Handler :=
  runWith (fun handle => stepBreached breach host handle) depth

variable {breach host handle}

/-! ## Breaches and errors -/

theorem integerLiteral_error {text : String} {e : Fault} (h : integerLiteral text = .error e) :
    e = .badInteger text := by
  unfold integerLiteral at h
  split at h
  · cases h
  · split at h
    · cases h
    · cases h
      rfl

theorem eval_of_breach {b : Bound} {n : Node} {e : Breach} (h : n.readBreach? = some e) :
    eval host handle b n = Action.fail e.fault := by
  unfold Node.readBreach? at h
  split at h
  · cases h
    rfl
  · next text =>
    split at h
    · cases h
    · next hliteral =>
      cases h
      rw [eval, hliteral, integerLiteral_error hliteral]
      rfl
  · cases h

theorem target_of_breach {n : Node} {e : Breach} (h : n.targetBreach? = some e) :
    ∃ base, n = .path base [] ∧ e = .emptyPath := by
  unfold Node.targetBreach? at h
  split at h
  · next base =>
    cases h
    exact ⟨base, rfl, rfl⟩
  · cases h

/-- A tree without a case where methods are called. -/
theorem refusal_of_breach {n : Node} {refusal e : Breach}
    (h : n.targetBreach?.or (if n.namesMethod then none else some refusal) = some e) :
    (∃ base, n = .path base [] ∧ e = .emptyPath) ∨ n.namesMethod = false ∧ e = refusal := by
  rcases Option.or_eq_some_iff.mp h with htarget | ⟨-, hrefusal⟩
  · exact .inl (target_of_breach htarget)
  · split at hrefusal
    · cases hrefusal
    · next hnames =>
      cases hrefusal
      exact .inr ⟨Bool.eq_false_iff.mpr hnames, rfl⟩

/-- A task that starts with a breach fails. -/
theorem step_of_breach {α : Type} {t : Task α} {e : Breach} (h : t.breach? = some e) :
    step host handle t = Action.fail e.fault := by
  cases t with
  | eval b n => exact eval_of_breach h
  | assign b n v | typeOf b n | readOnly b n =>
    obtain ⟨base, rfl, rfl⟩ := target_of_breach h
    rfl
  | invoke b n types args =>
    rcases refusal_of_breach h with ⟨base, rfl, rfl⟩ | ⟨hn, rfl⟩
    · rfl
    · cases n <;> first | rfl | cases hn
  | info b n types =>
    rcases refusal_of_breach h with ⟨base, rfl, rfl⟩ | ⟨hn, rfl⟩
    · rfl
    · cases n <;> first | rfl | cases hn

/-- No case of a strict operator is left over. -/
theorem strictBreached_eq {op : BinaryOp} (hop : op.isLazy = false) (h : Heap) (a b : Value) :
    strictBreached breach h op a b = Action.ofExcept (applyStrict h op a b) := by
  have settled (r : Except Fault Value) :
      settle breach (Arithmetic.expected r) = Action.ofExcept r := by
    cases r <;> rfl
  cases op with
  | add => rw [strictBreached, Arithmetic.addPromoted_eq, settled, applyStrict]
  | sub => rw [strictBreached, Arithmetic.subPromoted_eq, settled, applyStrict]
  | mul => rw [strictBreached, Arithmetic.mulPromoted_eq, settled, applyStrict]
  | div => rw [strictBreached, Arithmetic.divPromoted_eq, settled, applyStrict]
  | mod => rw [strictBreached, Arithmetic.remPromoted_eq, settled, applyStrict]
  | and | or | elvis | coalesce => cases hop
  | _ => rfl

/-- Operands of strict operators lead to no breach. -/
theorem binaryBreached_eq {b : Bound} {op : BinaryOp} {left right : Node} :
    binaryBreached breach handle b op left right = binary handle b op left right := by
  have strict (hop : op.isLazy = false) :
      (do
        let v ← handle (.eval b left)
        let w ← handle (.eval b right)
        strictBreached breach (← Action.heap) op v w) =
      (do
        let v ← handle (.eval b left)
        let w ← handle (.eval b right)
        Action.ofExcept (applyStrict (← Action.heap) op v w)) := by
    simp only [strictBreached_eq hop]
  cases op with
  | and | or | elvis | coalesce => rfl
  | _ => exact strict rfl

theorem stepUnbreached_eq {α : Type} (t : Task α) :
    stepUnbreached breach host handle t = step host handle t := by
  cases t with
  | eval b n =>
    cases n with
    | binary op left right => exact binaryBreached_eq
    | _ => rfl
  | _ => rfl

/-- The steps are the same where a breach, if the task starts with one, is the error that it stands
for. -/
theorem stepBreached_eq {α : Type} {t : Task α}
    (h : ∀ e, t.breach? = some e → breach e = (Action.fail e.fault : Action α)) :
    stepBreached breach host handle t = step host handle t := by
  unfold stepBreached
  cases hbreach : t.breach? with
  | none => exact stepUnbreached_eq t
  | some e => exact (h e hbreach).trans (step_of_breach hbreach).symm

/-- The evaluator is what fails at breaches. -/
theorem runBreached_strict (host : Host) (depth : Nat) :
    @runBreached Recovery.strict host depth = @run host depth := by
  induction depth with
  | zero => rfl
  | succ depth ih =>
    funext α t
    show stepBreached Recovery.strict host (runBreached Recovery.strict host depth) t =
      step host (run host depth) t
    rw [ih]
    exact stepBreached_eq fun _ _ => rfl

/-! ## Trees of texts -/

/-- An integer token is written with digits, so it has a value. -/
theorem integerLiteral_of_valid {text : String} (h : (Token.integer text).Valid) :
    ∃ v, integerLiteral text = .ok v := by
  obtain ⟨c, cs, hcs, hdigits⟩ := Lexer.isDigit_of_valid h
  have hnumber : IntegerText.unbounded text = .ok ((Binary.digitsValue (c :: cs) : Nat) : Int) := by
    rw [IntegerText.unbounded, hcs]
    exact IntegerText.unboundedChars_digits hdigits
  unfold integerLiteral
  split
  · exact ⟨_, rfl⟩
  · rw [hnumber]
    exact ⟨_, rfl⟩

end Evaluation

namespace Node.WellFormed

variable {n : Node} (h : n.WellFormed)
include h

theorem readBreach?_eq : n.readBreach? = none := by
  cases n with
  | call ns f calls =>
    cases calls with
    | nil => exact absurd rfl h.2.2.1
    | cons => rfl
  | integer t =>
    obtain ⟨v, hv⟩ := Evaluation.integerLiteral_of_valid h
    rw [readBreach?, hv]
  | _ => rfl

theorem targetBreach?_eq : n.targetBreach? = none := by
  cases n with
  | path base steps =>
    cases steps with
    | nil => exact absurd rfl h.2.1
    | cons => rfl
  | _ => rfl

/-- A tree that may name a method does so where it has no parts to leave it to. -/
theorem namesMethod_eq (htarget : n.isMethodTarget = true) : n.namesMethod = true := by
  cases n with
  | plain => exact h.elim
  | name | path | deferred | dynamic | choice | sequence => rfl
  | _ => cases htarget

end Node.WellFormed

theorem no_breach_of_parse {text : String} {root n : Node} (h : parseTemplate text = .ok root)
    (hn : n ∈ root.parts) : n.readBreach? = none ∧ n.targetBreach? = none := by
  rcases parts_parseTemplate h n hn with hframing | hwell
  · cases n <;> first | exact ⟨rfl, rfl⟩ | cases hframing
  · exact ⟨hwell.readBreach?_eq, hwell.targetBreach?_eq⟩

/-! ## Origins -/

namespace Origin

/-- The roots are the trees of texts, with any functions and variables. -/
def ofTexts : Origin := .ofRoots fun _ n => ∃ text, parseTemplate text = .ok n

/-- Besides, the trees of method expressions name a method, whatever branch is chosen. -/
def ofFactory : Origin where
  roots := ofTexts.roots
  targets n := n.isMethodTarget = true ∧ n.WellFormed
  deferred h := h.2.elim
  dynamic h := h.2.elim
  choice h :=
    have hbranches := Bool.and_eq_true_iff.mp h.1
    ⟨⟨hbranches.1, h.2.2.1⟩, ⟨hbranches.2, h.2.2.2⟩⟩
  sequence h := ⟨h.1, h.2.2⟩

theorem ofTexts_admits (t : ClassTable) : ofTexts.Admits t where
  root hn _ := ⟨_, hn⟩
  target _ _ _ := trivial

theorem ofFactory_admits (t : ClassTable) : ofFactory.Admits t where
  root hn _ := ⟨_, hn⟩
  target hn htarget hplain := by
    rcases parseTemplate_cases hn with ⟨s, rfl⟩ | ⟨parts, rfl, -⟩ | hwell
    · exact absurd rfl (hplain s)
    · cases htarget
    · exact ⟨htarget, hwell⟩

end Origin

/-! ## Rooted tasks -/

theorem Bound.Rooted.no_breach {O : Origin} {b : Bound} {n : Node} (hb : b.Rooted O n.parts)
    (hO : O.roots = Origin.ofTexts.roots) : n.readBreach? = none ∧ n.targetBreach? = none := by
  obtain ⟨root, hroot, hsub⟩ := hb.root
  rw [hO] at hroot
  obtain ⟨text, htext⟩ := hroot
  exact no_breach_of_parse htext (hsub n.mem_parts_self)

namespace Task.Rooted

variable {α : Type} {t : Task α}

/-- In trees of texts a task starts with no breach but a refusal. -/
theorem isRefusal (ht : t.Rooted .ofTexts) {e : Evaluation.Breach} (h : t.breach? = some e) :
    e.isRefusal = true := by
  cases t with
  | eval b n =>
    have hb : b.Rooted .ofTexts n.parts := ht
    cases (hb.no_breach rfl).1.symm.trans h
  | assign b n v => cases (ht.1.no_breach rfl).2.symm.trans h
  | typeOf b n | readOnly b n =>
    have hb : b.Rooted .ofTexts n.parts := ht
    cases (hb.no_breach rfl).2.symm.trans h
  | invoke b n types args =>
    rcases Evaluation.refusal_of_breach h with ⟨base, rfl, -⟩ | ⟨-, rfl⟩
    · cases (ht.1.1.no_breach rfl).2
    · rfl
  | info b n types =>
    rcases Evaluation.refusal_of_breach h with ⟨base, rfl, -⟩ | ⟨-, rfl⟩
    · cases (ht.1.no_breach rfl).2
    · rfl

/-- Where method expressions come from a factory, a task starts with no breach. -/
theorem breach?_eq_none (ht : t.Rooted .ofFactory) : t.breach? = none := by
  cases t with
  | eval b n =>
    have hb : b.Rooted .ofFactory n.parts := ht
    exact (hb.no_breach rfl).1
  | assign b n v => exact (ht.1.no_breach rfl).2
  | typeOf b n | readOnly b n =>
    have hb : b.Rooted .ofFactory n.parts := ht
    exact (hb.no_breach rfl).2
  | invoke b n types args =>
    have hnames := ht.1.2.2.namesMethod_eq ht.1.2.1
    rw [breach?, (ht.1.1.no_breach rfl).2, hnames]
    rfl
  | info b n types =>
    have hnames := ht.2.2.namesMethod_eq ht.2.1
    rw [breach?, (ht.1.no_breach rfl).2, hnames]
    rfl

end Task.Rooted

namespace Evaluation

theorem stepBreached_sparing_follows (breach : Recovery) (host : Host) :
    Stepper.Follows .ofTexts host
      fun handle => stepBreached (Recovery.sparing breach) host handle := by
  intro handle α t ht
  refine stepBreached_eq fun e he => ?_
  rw [Recovery.sparing, if_pos (ht.isRefusal he)]

theorem stepBreached_follows (breach : Recovery) (host : Host) :
    Stepper.Follows .ofFactory host fun handle => stepBreached breach host handle := by
  intro handle α t ht
  refine stepBreached_eq fun e he => ?_
  cases ht.breach?_eq_none.symm.trans he

/-! ## Evaluations -/

/-- What a factory builds in the world is rooted; the operation ends the same whatever happens at
breaches, and leaves all rooted. -/
structure Unbreached (O : Origin) (breach : Recovery) (host : Host) (f : Factory) (w : World)
    {α : Type} (o : Operation α) (depth : Nat) : Prop where
  value (text : String) (expected : Option TypeRef) :
    ResultIn (ValueExpr.Rooted O)
      (Factory.valueExpression host.classes w.context text expected f).1
  method (text : String) (returns : Option TypeRef) (params : Option (List TypeRef)) :
    ResultIn (MethodExpr.Rooted O)
      (Factory.methodExpression host.classes w.context text returns params f).1
  same : o.perform host (run host depth) w = o.perform host (runBreached breach host depth) w
  kept : (o.perform host (run host depth) w).Rooted O fun a => ∀ v ∈ o.values a, v.Rooted O

/-- No breach is met where the steps are the same on all that is rooted. -/
theorem unbreached_of_follows {O : Origin} {breach : Recovery} {host : Host}
    {classes : Array HostClass} (hh : host.Careful O classes) (ho : O.Admits host.classes)
    (hfollows : Stepper.Follows O host fun handle => stepBreached breach host handle) {f : Factory}
    (hf : f.Reached) {w : World} (hw : w.Rooted O) {α : Type} {o : Operation α} (hop : o.Rooted O)
    (depth : Nat) : Unbreached O breach host f w o depth := by
  have hruns : Handler.Agrees O (run host depth) (runBreached breach host depth) :=
    run_agrees hh.preserves ho hfollows depth
  obtain ⟨hsame, hkept⟩ := Operation.perform_agrees ⟨hh.preserves, ho, hruns⟩ hop w hw
  exact ⟨Factory.valueExpression_rooted hf ho hw.context,
    Factory.methodExpression_rooted hf ho hw.context, hsame, hkept⟩

/-- The evaluator is what takes breaches for the errors that they are. In any context whose trees all
come from texts it meets none but refusals, and where besides all method expressions come from a
factory, it meets none at all. -/
theorem breaches_unreached {host : Host} {classes : Array HostClass} {f : Factory} (hf : f.Reached)
    (w : World) {α : Type} (o : Operation α) (breach : Recovery) (depth : Nat) :
    @runBreached Recovery.strict host depth = @run host depth ∧
    (host.Careful .ofTexts classes → w.Rooted .ofTexts → o.Rooted .ofTexts →
      Unbreached .ofTexts (Recovery.sparing breach) host f w o depth) ∧
    (host.Careful .ofFactory classes → w.Rooted .ofFactory → o.Rooted .ofFactory →
      Unbreached .ofFactory breach host f w o depth) :=
  ⟨runBreached_strict host depth,
    fun hh hw ho => unbreached_of_follows hh (Origin.ofTexts_admits _)
      (stepBreached_sparing_follows breach host) hf hw ho depth,
    fun hh hw ho => unbreached_of_follows hh (Origin.ofFactory_admits _)
      (stepBreached_follows breach host) hf hw ho depth⟩

/-! ### A method expression under a name -/

/-- A world in which the name stands for the method expression. -/
def withMethod (name : String) (m : MethodExpr) : World :=
  let w := World.fresh .bare .none
  { w with context := { w.context with vars := [(name, .literal (.method m) none)] } }

theorem withMethod_rooted {O : Origin} {m : MethodExpr} (hm : m.Rooted O) (name : String) :
    (withMethod name m).Rooted O where
  heap _ hc := (Array.not_mem_empty _ hc).elim
  context := by
    refine ⟨nofun, fun i => ?_, List.forall_mem_singleton.mpr (.literal (.method hm))⟩
    cases i with
    | zero => exact nofun
    | succ i => exact nofun

/-- Plain text is its own result. -/
def plainDone : MethodExpr := .plain "done" none none

theorem parse_chosen : parseTemplate "$\x7btrue ? k : j\x7d" =
    .ok (.choice (.boolean true) (.name "k") (.name "j")) :=
  parseTemplate_segment .dynamic "true ? k : j" (parseExpression_of_toOption (by decide +kernel))

theorem parse_second : parseTemplate "$\x7b1 + 2; m\x7d" =
    .ok (.sequence (.binary .add (.integer "1") (.integer "2")) (.name "m")) :=
  parseTemplate_segment .dynamic "1 + 2; m" (parseExpression_of_toOption (by decide +kernel))

/-- The method expression of this text where `k` stands for plain text. -/
def chosenMethod : MethodExpr :=
  .parsed "$\x7btrue ? k : j\x7d" (.choice (.boolean true) (.name "k") (.name "j"))
    (.mk [] [("k", .literal (.method plainDone) none)]) none none

/-- The method expression of this text where `m` stands for the one above. -/
def secondMethod : MethodExpr :=
  .parsed "$\x7b1 + 2; m\x7d"
    (.sequence (.binary .add (.integer "1") (.integer "2")) (.name "m"))
    (.mk [] [("m", .literal (.method chosenMethod) none)]) none none

theorem parse_sum : parseTemplate "$\x7b1 + 2\x7d" =
    .ok (.binary .add (.integer "1") (.integer "2")) :=
  parseTemplate_segment .dynamic "1 + 2" (parseExpression_of_toOption (by decide +kernel))

/-- A method expression that no factory builds. -/
def looseMethod : MethodExpr :=
  .parsed "$\x7b1 + 2\x7d" (.binary .add (.integer "1") (.integer "2")) .empty none none

theorem looseMethod_rooted : looseMethod.Rooted .ofTexts :=
  .parsed (.mk _ ⟨_, parse_sum⟩ (List.Subset.refl _) nofun) trivial

/-- One method expression names another one, and that a third one by a choice. One that no factory
built is refused. -/
theorem method_behind_names :
    (Factory.methodExpression Host.bare.classes (withMethod "k" plainDone).context
      "$\x7btrue ? k : j\x7d" none none (.ofCapacity 1)).1 = .ok chosenMethod ∧
    (Factory.methodExpression Host.bare.classes (withMethod "m" chosenMethod).context
      "$\x7b1 + 2; m\x7d" none none (.ofCapacity 1)).1 = .ok secondMethod ∧
    (∃ u, ∀ breach, (Operation.invoke secondMethod []).perform .bare (runBreached breach .bare 4)
      (withMethod "m" chosenMethod) = .value (.text "done") u) ∧
    ∃ u, ∀ breach, (Operation.invoke looseMethod []).perform .bare
      (runBreached (Recovery.sparing breach) .bare 4) (withMethod "m" looseMethod) =
        .fault (.notInvocable "binary operation") u := by
  have hchosen : (Factory.methodExpression Host.bare.classes (withMethod "k" plainDone).context
      "$\x7btrue ? k : j\x7d" none none (.ofCapacity 1)).1 = .ok chosenMethod := by
    rw [(Factory.Reached.start 1).methodExpression_eq, parse_chosen]
    rfl
  have hsecond : (Factory.methodExpression Host.bare.classes (withMethod "m" chosenMethod).context
      "$\x7b1 + 2; m\x7d" none none (.ofCapacity 1)).1 = .ok secondMethod := by
    rw [(Factory.Reached.start 1).methodExpression_eq, parse_second]
    rfl
  have rooted_chosen := ((breaches_unreached (.start 1) (withMethod "k" plainDone)
    (.invoke plainDone []) Recovery.strict 0).2.2 (Host.careful_bare _)
    (withMethod_rooted .plain "k") ⟨.plain, nofun⟩).method _ _ _ _ hchosen
  have rooted_world := withMethod_rooted rooted_chosen "m"
  have rooted_second := ((breaches_unreached (.start 1) (withMethod "m" chosenMethod)
    (.invoke chosenMethod []) Recovery.strict 0).2.2 (Host.careful_bare _)
    rooted_world ⟨rooted_chosen, nofun⟩).method _ _ _ _ hsecond
  have hdone : ∃ u, (Operation.invoke secondMethod []).perform .bare (run .bare 4)
      (withMethod "m" chosenMethod) = .value (.text "done") u := ⟨_, rfl⟩
  have hrefused : ∃ u, (Operation.invoke looseMethod []).perform .bare (run .bare 4)
      (withMethod "m" looseMethod) = .fault (.notInvocable "binary operation") u := ⟨_, rfl⟩
  obtain ⟨u, hu⟩ := hdone
  obtain ⟨v, hv⟩ := hrefused
  refine ⟨hchosen, hsecond, ⟨u, fun breach => ?_⟩, v, fun breach => ?_⟩
  · rw [← ((breaches_unreached (.start 1) (withMethod "m" chosenMethod) (.invoke secondMethod [])
      breach 4).2.2 (Host.careful_bare _) rooted_world ⟨rooted_second, nofun⟩).same]
    exact hu
  · rw [← ((breaches_unreached (.start 1) (withMethod "m" looseMethod) (.invoke looseMethod [])
      breach 4).2.1 (Host.careful_bare _) (withMethod_rooted looseMethod_rooted "m")
      ⟨looseMethod_rooted, nofun⟩).same]
    exact hv

end Evaluation

end ExprLang
