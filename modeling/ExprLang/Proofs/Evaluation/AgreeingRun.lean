import ExprLang.Proofs.Evaluation.Operation
import ExprLang.Proofs.Evaluation.Parts
import ExprLang.Proofs.Factory
import ExprLang.Proofs.Resolution.Agreeing

/-! Steps agree where the tasks inside them do, because the trees of these are parts of the tree of the
step, and lambdas keep parts of it. So a run agrees with every other way to carry out tasks that differs
from a step only on trees that grow from no root. -/

namespace ExprLang.Evaluation

open ExprLang.Action (Agrees)

variable {α : Type} {O : Origin} {host : Host} {handle other : Handler} {b : Bound}

section Step
variable (ha : Agreement O host handle other)
include ha

theorem handler_eval_agrees {n : Node} (hb : b.Rooted O n.parts) :
    Agrees O (Value.Rooted O) (handle (.eval b n)) (other (.eval b n)) :=
  ha.handler (.eval b n) hb

/-! ## Operators and names -/

theorem truth_agrees {n : Node} (hb : b.Rooted O n.parts) :
    Agrees O (fun _ => True) (truth handle b n) (truth other b n) :=
  (handler_eval_agrees ha hb).bind fun _ _ => Agrees.heap.bind fun _ _ => .ofExcept_any _

theorem unary_agrees (op : UnaryOp) {n : Node} (hb : b.Rooted O n.parts) :
    Agrees O (Value.Rooted O) (unary handle b op n) (unary other b op n) := by
  refine (handler_eval_agrees ha hb).bind fun v _ => Agrees.heap.bind fun h _ => ?_
  cases op with
  | neg => exact .ofExcept_atom (Arithmetic.neg_atom h v)
  | not => exact .ofExcept_atom (ResultIn.map_iff.mpr fun _ _ => rfl)
  | empty => exact .pure (Value.rooted_of_isAtom rfl)

section Binary
variable {left right : Node} (hl : b.Rooted O left.parts) (hr : b.Rooted O right.parts)
include hl hr

theorem strict_agrees (op : BinaryOp) :
    Agrees O (Value.Rooted O)
      (do
        let v ← handle (.eval b left)
        let w ← handle (.eval b right)
        Action.ofExcept (applyStrict (← Action.heap) op v w))
      (do
        let v ← other (.eval b left)
        let w ← other (.eval b right)
        Action.ofExcept (applyStrict (← Action.heap) op v w)) :=
  (handler_eval_agrees ha hl).bind fun v _ => (handler_eval_agrees ha hr).bind fun w _ =>
    Agrees.heap.bind fun h _ => .ofExcept_atom (applyStrict_atom h op v w)

theorem binary_agrees (op : BinaryOp) :
    Agrees O (Value.Rooted O) (binary handle b op left right) (binary other b op left right) := by
  have bool (t : Bool) : (Value.bool t).Rooted O := Value.rooted_of_isAtom rfl
  have right_truth : Agrees O (Value.Rooted O) (Value.bool <$> truth handle b right)
      (Value.bool <$> truth other b right) := (truth_agrees ha hr).map _ fun t _ => bool t
  cases op with
  | and => exact (truth_agrees ha hl).bind fun _ _ => .ite right_truth (.pure (bool _))
  | or => exact (truth_agrees ha hl).bind fun _ _ => .ite (.pure (bool _)) right_truth
  | elvis =>
    exact (handler_eval_agrees ha hl).bind fun v hv => Agrees.heap.bind fun _ _ =>
      (Agrees.ofExcept_any _).bind fun _ _ => .ite (.pure hv) (handler_eval_agrees ha hr)
  | coalesce =>
    exact (handler_eval_agrees ha hl).bind fun v hv =>
      .ite (handler_eval_agrees ha hr) (.pure hv)
  | _ => exact strict_agrees ha hl hr _

end Binary

theorem branch_agrees {condition yes no : Node} (hb : b.Rooted O condition.parts) :
    Agrees O (fun n => n = yes ∨ n = no) (branch handle b condition yes no)
      (branch other b condition yes no) :=
  (truth_agrees ha hb).bind fun _ _ => .ite (.pure (.inl rfl)) (.pure (.inr rfl))

theorem findValue_agrees {ps : List Node} (hb : b.Rooted O ps) (name : String) :
    Agrees O (fun found => ∀ v, found = some v → v.Rooted O) (findValue host handle b name)
      (findValue host other b name) := by
  have found {v : Value} (hv : v.Rooted O) : ∀ w, some v = some w → w.Rooted O := by
    rintro _ ⟨⟩
    exact hv
  refine Agrees.context.bind fun c hc => ?_
  cases hv : c.argument? name with
  | some v => exact .pure (found (hc.argument? hv))
  | none =>
    cases he : b.expression? name with
    | some e => exact (read_agrees ha (hb.expression? he)).map _ fun _ => found
    | none =>
      have hq : (Request.get .null (.text name)).Rooted O :=
        ⟨Value.rooted_null, Value.rooted_of_isAtom rfl⟩
      exact (Resolution.resolve_agrees ha hq).bind fun _ hv => Agrees.isResolved.bind fun _ _ =>
        .ite (.pure (found hv)) (.pure nofun)

theorem nameValue_agrees {ps : List Node} (hb : b.Rooted O ps) (name : String) :
    Agrees O (Value.Rooted O) (nameValue host handle b name) (nameValue host other b name) := by
  refine (findValue_agrees ha hb name).bind fun found hfound => ?_
  split
  · next v => exact .pure (hfound v rfl)
  · refine Agrees.context.bind fun c _ => ?_
    dsimp only
    split
    · exact Resolution.get_agrees ha (Value.rooted_of_isAtom rfl) (Value.rooted_of_isAtom rfl)
    · exact .pure (Value.rooted_of_isAtom rfl)
    · exact .fail _

/-! ## Paths and calls -/

theorem evalAll_agrees {ns : List Node} (hb : b.Rooted O (partsOfAll ns)) :
    Agrees O (fun vs => ∀ v ∈ vs, v.Rooted O) (evalAll handle b ns) (evalAll other b ns) := by
  induction ns with
  | nil => exact .pure nofun
  | cons n ns ih =>
    exact (handler_eval_agrees ha (hb.mono partsOfAll_head)).bind fun v hv =>
      (ih (hb.mono partsOfAll_tail)).bind fun vs hvs =>
      .pure (List.forall_mem_cons.mpr ⟨hv, hvs⟩)

theorem selected_agrees {s : Selector} (hb : b.Rooted O (partsOfSelector s)) :
    Agrees O (Value.Rooted O) (selected handle b s) (selected other b s) := by
  cases s with
  | field name => exact .pure (Value.rooted_of_isAtom rfl)
  | index n => exact handler_eval_agrees ha hb

theorem follow_agrees {s : Step} (hb : b.Rooted O (partsOfStep s)) {base : Value}
    (hbase : base.Rooted O) :
    Agrees O (Value.Rooted O) (follow host handle b base s) (follow host other b base s) := by
  refine (selected_agrees ha (hb.mono partsOfStep_selector)).bind fun property hproperty => ?_
  split
  · next args hs =>
    exact (evalAll_agrees ha (hb.mono (partsOfStep_args hs))).bind fun vs hvs =>
      Resolution.invoke_agrees ha none hbase hproperty hvs
  · exact .ite (.pure Value.rooted_null) (Resolution.get_agrees ha hbase hproperty)

theorem walk_agrees {ss : List Step} (hb : b.Rooted O (partsOfSteps ss)) {v : Value}
    (hv : v.Rooted O) :
    Agrees O (Value.Rooted O) (walk host handle b v ss) (walk host other b v ss) := by
  induction ss generalizing v with
  | nil => exact .pure hv
  | cons s ss ih =>
    exact .ite (.pure Value.rooted_null) <|
      (follow_agrees ha (hb.mono (partsOfStep_subset List.mem_cons_self)) hv).bind fun _ hw =>
      ih (hb.mono (partsOfSteps_subset (List.subset_cons_self _ _))) hw

theorem reach_agrees {ss : List Step} (hb : b.Rooted O (partsOfSteps ss)) {v : Value}
    (hv : v.Rooted O) :
    Agrees O (Value.Rooted O) (reach host handle b v ss) (reach host other b v ss) := by
  induction ss generalizing v with
  | nil => exact .pure hv
  | cons s ss ih =>
    exact (follow_agrees ha (hb.mono (partsOfStep_subset List.mem_cons_self)) hv).bind fun _ hw =>
      .ite (.fail _) (ih (hb.mono (partsOfSteps_subset (List.subset_cons_self _ _))) hw)

theorem target_agrees {base : Node} {steps : List Step} (hb : b.Rooted O (Node.path base steps).parts) :
    Agrees O (fun t => t.1.Rooted O ∧ b.Rooted O (partsOfStep t.2)) (target host handle b base steps)
      (target host other b base steps) := by
  unfold target
  cases hlast : steps.getLast? with
  | none => exact .fail _
  | some last =>
    have hsteps := hb.mono Node.parts_steps
    have hreached : b.Rooted O (partsOfSteps steps.dropLast) :=
      hsteps.mono (partsOfSteps_subset (List.dropLast_subset steps))
    have hstep : b.Rooted O (partsOfStep last) :=
      hsteps.mono (partsOfStep_subset (List.mem_of_getLast? hlast))
    exact (handler_eval_agrees ha (hb.mono Node.parts_base)).bind fun v hv => .ite (.fail _) <|
      (reach_agrees ha hreached hv).bind fun _ hw => .pure ⟨hw, hstep⟩

theorem callChain_agrees {calls : List (List Node)} (hb : b.Rooted O (partsOfCalls calls))
    (key : String) {v : Value} (hv : v.Rooted O) :
    Agrees O (Value.Rooted O) (callChain handle b key v calls) (callChain other b key v calls) := by
  induction calls generalizing v with
  | nil => exact .pure hv
  | cons args rest ih =>
    refine (evalAll_agrees ha (hb.mono partsOfCalls_head)).bind fun vs hvs => ?_
    split
    · exact (closure_agrees ha hv.closure hvs).bind fun w hw => ih (hb.mono partsOfCalls_tail) hw
    · exact Agrees.heap.bind fun _ _ => .fail _

section Call
variable {first : List Node} {rest : List (List Node)}
  (hb : b.Rooted O (partsOfCalls (first :: rest)))
include hb

theorem callImported_agrees (name : String) :
    Agrees O (Value.Rooted O) (callImported host handle b name first rest)
      (callImported host other b name first rest) := by
  have called (c : ClassId) (method : String) :
      Agrees O (Value.Rooted O)
        (do
          let vs ← evalAll handle b first
          let v ← Resolution.invoke host handle (.cls c) (.text method) none vs
          callChain handle b name v rest)
        (do
          let vs ← evalAll other b first
          let v ← Resolution.invoke host other (.cls c) (.text method) none vs
          callChain other b name v rest) :=
    (evalAll_agrees ha (hb.mono partsOfCalls_head)).bind fun vs hvs =>
      (Resolution.invoke_agrees ha none (Value.rooted_of_isAtom rfl) (Value.rooted_of_isAtom rfl)
        hvs).bind fun v hv => callChain_agrees ha (hb.mono partsOfCalls_tail) name hv
  refine Agrees.context.bind fun c _ => ?_
  dsimp only
  cases c.imports.classes.find? name with
  | some c => exact called c _
  | none =>
    cases c.imports.statics.find? name with
    | some c => exact called c name
    | none => exact .fail _

end Call

theorem call_agrees {ns name : String} {calls : List (List Node)}
    (hb : b.Rooted O (partsOfCalls calls)) :
    Agrees O (Value.Rooted O) (call host handle b ns name calls) (call host other b ns name calls) := by
  unfold call
  dsimp only
  split
  · exact .fail _
  · next first rest =>
    split
    · next f hf =>
      obtain ⟨_, -, hdeclared⟩ := Option.bind_eq_some_iff.mp hf
      refine (evalAll_agrees ha (hb.mono partsOfCalls_head)).bind fun vs hvs =>
        (Agrees.ofExcept_any _).bind fun _ _ => ?_
      exact (method_invoke_agrees ha (ClassTable.declares_of_method? hdeclared) Value.rooted_null
        hvs).bind fun v hv => callChain_agrees ha (hb.mono partsOfCalls_tail) _ hv
    · refine .ite (.fail _) ((findValue_agrees ha hb name).bind fun found hfound => ?_)
      split
      · next f => exact callChain_agrees ha hb _ (hfound _ rfl)
      · exact callImported_agrees ha hb name

/-! ## Tasks -/

theorem joinParts_agrees {ns : List Node} (hb : b.Rooted O (partsOfAll ns)) :
    Agrees O (fun _ => True) (joinParts handle b ns) (joinParts other b ns) := by
  induction ns with
  | nil => exact .pure trivial
  | cons n ns ih =>
    exact (handler_eval_agrees ha (hb.mono partsOfAll_head)).bind fun _ _ =>
      Agrees.heap.bind fun _ _ => (ih (hb.mono partsOfAll_tail)).bind fun _ _ => .pure trivial

theorem evalEntries_agrees {es : List (Node × Node)} (hb : b.Rooted O (partsOfEntries es)) :
    Agrees O (fun es => ∀ e ∈ es, e.1.Rooted O ∧ e.2.Rooted O) (evalEntries handle b es)
      (evalEntries other b es) := by
  induction es with
  | nil => exact .pure nofun
  | cons e es ih =>
    exact (handler_eval_agrees ha (hb.mono partsOfEntries_key)).bind fun _ hkey =>
      (handler_eval_agrees ha (hb.mono partsOfEntries_value)).bind fun _ hv =>
      (ih (hb.mono partsOfEntries_tail)).bind fun _ hrest =>
      .pure (List.forall_mem_cons.mpr ⟨⟨hkey, hv⟩, hrest⟩)

variable {n : Node}

theorem eval_agrees (hb : b.Rooted O n.parts) :
    Agrees O (Value.Rooted O) (eval host handle b n) (eval host other b n) := by
  cases n with
  | plain text => exact .pure (Value.rooted_of_isAtom rfl)
  | template parts =>
    exact (joinParts_agrees ha (hb.mono Node.parts_template)).map _ fun _ _ =>
      Value.rooted_of_isAtom rfl
  | deferred body => exact handler_eval_agrees ha (hb.mono Node.parts_deferred)
  | dynamic body => exact handler_eval_agrees ha (hb.mono Node.parts_dynamic)
  | null => exact .pure Value.rooted_null
  | boolean t => exact .pure (Value.rooted_of_isAtom rfl)
  | integer text => exact .ofExcept_atom (integerLiteral_atom text)
  | floating text => exact .ofExcept_atom (floatingLiteral_atom text)
  | text content => exact .pure (Value.rooted_of_isAtom rfl)
  | name name => exact nameValue_agrees ha hb name
  | path base steps =>
    exact (handler_eval_agrees ha (hb.mono Node.parts_base)).bind fun v hv =>
      walk_agrees ha (hb.mono Node.parts_steps) hv
  | call ns name calls => exact call_agrees ha (hb.mono Node.parts_calls)
  | lambda params body calls =>
    refine Agrees.context.bind fun c hc =>
      callChain_agrees ha (hb.mono Node.parts_ownCalls) _ (.lambda ?_)
    exact .mk (hb.mono Node.parts_body) hc.arguments
  | unary op operand => exact unary_agrees ha op (hb.mono Node.parts_operand)
  | binary op left right =>
    exact binary_agrees ha (hb.mono Node.parts_left) (hb.mono Node.parts_right) op
  | choice condition yes no =>
    exact (branch_agrees ha (hb.mono Node.parts_condition)).bind fun chosen hchosen =>
      handler_eval_agrees ha (hb.mono (Node.parts_chosen hchosen))
  | assign target value =>
    exact (handler_eval_agrees ha (hb.mono Node.parts_value)).bind fun v hv =>
      (ha.handler (.assign b target v) ⟨hb.mono Node.parts_target, hv⟩).bind fun _ _ => .pure hv
  | sequence first second =>
    exact (handler_eval_agrees ha (hb.mono Node.parts_first)).bind fun _ _ =>
      handler_eval_agrees ha (hb.mono Node.parts_second)
  | list items =>
    exact (evalAll_agrees ha (hb.mono Node.parts_list)).bind fun vs hvs =>
      .build fun h hh => hh.newList hvs
  | set items =>
    exact (evalAll_agrees ha (hb.mono Node.parts_set)).bind fun vs hvs =>
      .build fun h hh => hh.newSet hvs
  | map entries =>
    exact (evalEntries_agrees ha (hb.mono Node.parts_map)).bind fun es hes =>
      .build fun h hh => hh.newMap hes

theorem convertForWrite_agrees {base property v : Value} (hbase : base.Rooted O)
    (hproperty : property.Rooted O) (hv : v.Rooted O) :
    Agrees O (Value.Rooted O) (convertForWrite host handle base property v)
      (convertForWrite host other base property v) := by
  refine (Resolution.resolve_agrees ha (q := .type base property) ⟨hbase, hproperty⟩).bind
    fun t _ => Agrees.isResolved.bind fun claimed _ => ?_
  cases t with
  | none => exact .pure hv
  | some t => exact .ite (convert_agrees ha.preserves t hv) (.pure hv)

theorem assign_agrees (hb : b.Rooted O n.parts) {v : Value} (hv : v.Rooted O) :
    Agrees O (fun _ => True) (assign host handle b n v) (assign host other b n v) := by
  cases n with
  | deferred body => exact ha.handler (.assign b body v) ⟨hb.mono Node.parts_deferred, hv⟩
  | dynamic body => exact ha.handler (.assign b body v) ⟨hb.mono Node.parts_dynamic, hv⟩
  | name name =>
    refine Agrees.context.bind fun c _ => .ite (.fail _) ?_
    cases he : b.expression? name with
    | some e => exact write_agrees ha (hb.expression? he) hv
    | none => exact Resolution.set_agrees ha Value.rooted_null (Value.rooted_of_isAtom rfl) hv
  | path base steps =>
    refine (target_agrees ha hb).bind fun t ht => .ite (.fail _) ?_
    exact (selected_agrees ha (ht.2.mono partsOfStep_selector)).bind fun property hproperty =>
      (convertForWrite_agrees ha ht.1 hproperty hv).bind fun w hw =>
      Resolution.set_agrees ha ht.1 hproperty hw
  | choice condition yes no =>
    exact (branch_agrees ha (hb.mono Node.parts_condition)).bind fun chosen hchosen =>
      ha.handler (.assign b chosen v) ⟨hb.mono (Node.parts_chosen hchosen), hv⟩
  | sequence first second =>
    exact (handler_eval_agrees ha (hb.mono Node.parts_first)).bind fun _ _ =>
      ha.handler (.assign b second v) ⟨hb.mono Node.parts_second, hv⟩
  | _ => exact .fail _

theorem typeOfValue_agrees (hb : b.Rooted O n.parts) :
    Agrees O (fun _ => True) (typeOfValue handle b n) (typeOfValue other b n) :=
  (handler_eval_agrees ha hb).bind fun _ _ => Agrees.heap.bind fun _ _ => .pure trivial

theorem typeOf_agrees (hb : b.Rooted O n.parts) :
    Agrees O (fun _ => True) (typeOf host handle b n) (typeOf host other b n) := by
  cases n with
  | deferred body => exact ha.handler (.typeOf b body) (hb.mono Node.parts_deferred)
  | dynamic body => exact ha.handler (.typeOf b body) (hb.mono Node.parts_dynamic)
  | name name =>
    refine Agrees.context.bind fun c _ => .ite (.pure trivial) ?_
    cases he : b.expression? name with
    | some e => exact type?_agrees ha (hb.expression? he)
    | none => exact Resolution.type_agrees ha Value.rooted_null (Value.rooted_of_isAtom rfl)
  | path base steps =>
    refine (target_agrees ha hb).bind fun t ht => .ite (.pure trivial) ?_
    exact (selected_agrees ha (ht.2.mono partsOfStep_selector)).bind fun property hproperty =>
      Resolution.type_agrees ha ht.1 hproperty
  | call ns name calls =>
    match calls with
    | [] => exact typeOfValue_agrees ha hb
    | [args] =>
      simp only [typeOf]
      cases b.method? host.classes ns name with
      | some f => exact .pure trivial
      | none => exact typeOfValue_agrees ha hb
    | _ :: _ :: _ => exact typeOfValue_agrees ha hb
  | choice condition yes no =>
    exact (branch_agrees ha (hb.mono Node.parts_condition)).bind fun chosen hchosen =>
      ha.handler (.typeOf b chosen) (hb.mono (Node.parts_chosen hchosen))
  | sequence first second => exact ha.handler (.typeOf b second) (hb.mono Node.parts_second)
  | _ => exact typeOfValue_agrees ha hb

theorem readOnly_agrees (hb : b.Rooted O n.parts) :
    Agrees O (fun _ => True) (readOnly host handle b n) (readOnly host other b n) := by
  cases n with
  | deferred body => exact ha.handler (.readOnly b body) (hb.mono Node.parts_deferred)
  | dynamic body => exact ha.handler (.readOnly b body) (hb.mono Node.parts_dynamic)
  | name name =>
    refine Agrees.context.bind fun c _ => .ite (.pure trivial) ?_
    cases he : b.expression? name with
    | some e => exact isReadOnly_agrees ha (hb.expression? he)
    | none => exact Resolution.readOnly_agrees ha Value.rooted_null (Value.rooted_of_isAtom rfl)
  | path base steps =>
    refine (target_agrees ha hb).bind fun t ht => .ite (.pure trivial) ?_
    exact (selected_agrees ha (ht.2.mono partsOfStep_selector)).bind fun property hproperty =>
      Resolution.readOnly_agrees ha ht.1 hproperty
  | choice condition yes no =>
    exact (branch_agrees ha (hb.mono Node.parts_condition)).bind fun chosen hchosen =>
      ha.handler (.readOnly b chosen) (hb.mono (Node.parts_chosen hchosen))
  | sequence first second => exact ha.handler (.readOnly b second) (hb.mono Node.parts_second)
  | _ => exact .pure trivial

/-! ## Methods -/

theorem methodNamed_agrees {ps : List Node} (hb : b.Rooted O ps) (name : String) :
    Agrees O (MethodExpr.Rooted O) (methodNamed host handle b name)
      (methodNamed host other b name) := by
  unfold methodNamed
  rcases he : b.expression? name with _ | e
  case' none =>
    refine (Resolution.resolve_agrees ha (q := .get .null (.text name))
      ⟨Value.rooted_null, Value.rooted_of_isAtom rfl⟩).bind fun v hv => ?_
  case' some => refine (read_agrees ha (hb.expression? he)).bind fun v hv => ?_
  all_goals
    cases v with
    | method x => exact .pure hv.expression
    | null => exact .fail _
    | _ => exact Agrees.heap.bind fun _ _ => .fail _

omit ha in
theorem targets_chosen {condition yes no chosen : Node} (h : O.targets (.choice condition yes no))
    (hchosen : chosen = yes ∨ chosen = no) : O.targets chosen := by
  rcases hchosen with rfl | rfl
  · exact (O.choice h).1
  · exact (O.choice h).2

theorem invoke_agrees (hb : b.Rooted O n.parts) (hn : O.targets n) (types : Option (List TypeRef))
    {args : List Value} (hargs : ∀ v ∈ args, v.Rooted O) :
    Agrees O (Value.Rooted O) (invoke host handle b n types args)
      (invoke host other b n types args) := by
  cases n with
  | deferred body =>
    exact ha.handler (.invoke b body types args) ⟨⟨hb.mono Node.parts_deferred, O.deferred hn⟩, hargs⟩
  | dynamic body =>
    exact ha.handler (.invoke b body types args) ⟨⟨hb.mono Node.parts_dynamic, O.dynamic hn⟩, hargs⟩
  | path base steps =>
    refine (target_agrees ha hb).bind fun t ht =>
      (selected_agrees ha (ht.2.mono partsOfStep_selector)).bind fun method hmethod => ?_
    split
    · next own hs =>
      exact (evalAll_agrees ha (ht.2.mono (partsOfStep_args hs))).bind fun vs hvs =>
        Resolution.invoke_agrees ha none ht.1 hmethod hvs
    · exact Resolution.invoke_agrees ha types ht.1 hmethod hargs
  | name name =>
    exact (methodNamed_agrees ha hb name).bind fun x hx => methodExpr_invoke_agrees ha hx hargs
  | choice condition yes no =>
    exact (branch_agrees ha (hb.mono Node.parts_condition)).bind fun chosen hchosen =>
      ha.handler (.invoke b chosen types args)
        ⟨⟨hb.mono (Node.parts_chosen hchosen), targets_chosen hn hchosen⟩, hargs⟩
  | sequence first second =>
    exact (handler_eval_agrees ha (hb.mono Node.parts_first)).bind fun _ _ =>
      ha.handler (.invoke b second types args)
        ⟨⟨hb.mono Node.parts_second, O.sequence hn⟩, hargs⟩
  | _ => exact .fail _

omit ha in
theorem describeMethod_agrees (base property : Value) (types : Option (List TypeRef)) :
    Agrees O (fun _ => True) (describeMethod host base property types)
      (describeMethod host base property types) := by
  refine Agrees.heap.bind fun _ _ => (Agrees.ofExcept_any _).bind fun name _ => ?_
  dsimp only
  split
  · exact .pure trivial
  · exact (Agrees.ofExcept_any _).map _ fun _ _ => trivial

theorem info_agrees (hb : b.Rooted O n.parts) (hn : O.targets n) (types : Option (List TypeRef)) :
    Agrees O (fun _ => True) (info host handle b n types) (info host other b n types) := by
  cases n with
  | deferred body =>
    exact ha.handler (.info b body types) ⟨hb.mono Node.parts_deferred, O.deferred hn⟩
  | dynamic body =>
    exact ha.handler (.info b body types) ⟨hb.mono Node.parts_dynamic, O.dynamic hn⟩
  | path base steps =>
    refine (target_agrees ha hb).bind fun t ht => .ite (.pure trivial) ?_
    exact (selected_agrees ha (ht.2.mono partsOfStep_selector)).bind fun property _ =>
      (describeMethod_agrees _ _ types).map _ fun _ _ => trivial
  | name name =>
    exact (methodNamed_agrees ha hb name).bind fun x hx => methodExpr_info_agrees ha hx
  | choice condition yes no =>
    exact (branch_agrees ha (hb.mono Node.parts_condition)).bind fun chosen hchosen =>
      ha.handler (.info b chosen types)
        ⟨hb.mono (Node.parts_chosen hchosen), targets_chosen hn hchosen⟩
  | sequence first second =>
    exact (handler_eval_agrees ha (hb.mono Node.parts_first)).bind fun _ _ =>
      ha.handler (.info b second types) ⟨hb.mono Node.parts_second, O.sequence hn⟩
  | _ => exact .fail _

theorem step_agrees {t : Task α} (ht : t.Rooted O) :
    Agrees O (t.Gives O) (step host handle t) (step host other t) := by
  cases t with
  | eval b n => exact eval_agrees ha ht
  | assign b n v => exact assign_agrees ha ht.1 ht.2
  | typeOf b n => exact typeOf_agrees ha ht
  | readOnly b n => exact readOnly_agrees ha ht
  | invoke b n types args => exact invoke_agrees ha ht.1.1 ht.1.2 types ht.2
  | info b n types => exact info_agrees ha ht.1 ht.2 types

end Step

/-! ## Runs -/

/-- One step of every task, for every handler of the tasks inside it. -/
abbrev Stepper := Handler → {α : Type} → Task α → Action α

/-- Carries out tasks that nest at most `depth` others, step by step in a given way. -/
def runWith (advance : Stepper) : Nat → Handler
  | 0, _, _ => Action.exhausted
  | depth + 1, _, task => advance (runWith advance depth) task

/-- The way takes the same steps as the evaluator on trees that grow from roots. -/
def Stepper.Follows (O : Origin) (host : Host) (advance : Stepper) : Prop :=
  ∀ (handle : Handler) {α : Type} (t : Task α), t.Rooted O → advance handle t = step host handle t

/-- Runs agree with those that take the same steps on trees that grow from roots. -/
theorem run_agrees (hp : host.Preserves O) (ho : O.Admits host.classes) {advance : Stepper}
    (hf : advance.Follows O host) (depth : Nat) :
    Handler.Agrees O (run host depth) (runWith advance depth) := by
  induction depth with
  | zero => exact fun _ _ => .exhausted
  | succ depth ih =>
    intro α t ht
    show Agrees O _ (step host (run host depth) t) (advance (runWith advance depth) t)
    rw [hf _ t ht]
    exact step_agrees ⟨hp, ho, ih⟩ ht

end ExprLang.Evaluation

/-! ## Operations -/

namespace ExprLang

namespace Operation

variable {α : Type} {O : Origin} {host : Host} {handle other : Handler}

/-- All that the operation is given is rooted. -/
def Rooted (O : Origin) : {α : Type} → Operation α → Prop
  | _, read e => e.Rooted O
  | _, readAs e _ => e.Rooted O
  | _, write e v => e.Rooted O ∧ v.Rooted O
  | _, typeOf e => e.Rooted O
  | _, isReadOnly e => e.Rooted O
  | _, invoke m args => m.Rooted O ∧ ∀ v ∈ args, v.Rooted O
  | _, describe m => m.Rooted O
  | _, call f args => f.Rooted O ∧ ∀ v ∈ args, v.Rooted O

theorem perform_agrees (ha : Agreement O host handle other) {o : Operation α} (ho : o.Rooted O) :
    Action.Agrees O (fun a => ∀ v ∈ o.values a, v.Rooted O) (o.perform host handle)
      (o.perform host other) := by
  have value {x y : Action Value} (h : Action.Agrees O (Value.Rooted O) x y) :
      Action.Agrees O (fun a => ∀ v ∈ [a], v.Rooted O) x y :=
    h.imp fun _ => List.forall_mem_singleton.mpr
  have nothing {β : Type} {x y : Action β} (h : Action.Agrees O (fun _ => True) x y) :
      Action.Agrees O (fun _ => ∀ v ∈ ([] : List Value), v.Rooted O) x y := h.imp fun _ _ => nofun
  cases o with
  | read e => exact value (read_agrees ha ho)
  | readAs e t => exact value (readAs_agrees ha ho t)
  | write e v => exact nothing (write_agrees ha ho.1 ho.2)
  | typeOf e => exact nothing (type?_agrees ha ho)
  | isReadOnly e => exact nothing (isReadOnly_agrees ha ho)
  | invoke m args => exact value (methodExpr_invoke_agrees ha ho.1 ho.2)
  | describe m => exact nothing (methodExpr_info_agrees ha ho)
  | call f args => exact value (closure_agrees ha ho.1 ho.2)

end Operation

namespace Factory

variable {t : ClassTable} {f : Factory} (hf : f.Reached) {c : Context} {O : Origin}
  (ho : O.Admits t) (hc : c.Rooted O)
include hf ho hc

theorem valueExpression_rooted (text : String) (expected : Option TypeRef) :
    ResultIn (ValueExpr.Rooted O) (valueExpression t c text expected f).1 := by
  intro e he
  obtain ⟨n, b, hn, hb, rfl⟩ := valueExpression_spec hf he
  exact .parsed (.of_capture ho hc hn hb)

theorem methodExpression_rooted (text : String) (returns : Option TypeRef)
    (params : Option (List TypeRef)) :
    ResultIn (MethodExpr.Rooted O) (methodExpression t c text returns params f).1 := by
  intro m hm
  rcases methodExpression_spec hf hm with ⟨_, -, rfl⟩ | ⟨n, b, hn, hplain, hb, rfl⟩
  · exact .plain
  · exact .parsed (.of_capture ho hc hn hb)
      (ho.target hn (methodExpression_isMethodTarget hf hm) hplain)

end Factory

end ExprLang
