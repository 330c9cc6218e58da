import ExprLang.Proofs.Evaluation.Parts
import ExprLang.Proofs.Resolution.Simulation

/-! A run does the same for tasks on one tree whose bindings agree on what the tree mentions. Every
name that a step looks up is part of the tree, and so are the trees of the tasks inside it. -/

namespace ExprLang

namespace Bound.Agree
variable {t : ClassTable} {b c : Bound}

section Steps
variable {s : Step}

theorem selector (h : Agree t (partsOfStep s) b c) : Agree t (partsOfSelector s.selector) b c :=
  h.mono partsOfStep_selector

theorem args (h : Agree t (partsOfStep s) b c) {ns : List Node} (hs : s.args? = some ns) :
    Agree t (partsOfAll ns) b c :=
  h.mono (partsOfStep_args hs)

end Steps

section Nodes
variable {n m k : Node} {ns : List Node} {calls : List (List Node)} {es : List (Node × Node)}
  {ss : List Step}

theorem head (h : Agree t (partsOfAll (n :: ns)) b c) : Agree t n.parts b c :=
  h.mono partsOfAll_head

theorem tail (h : Agree t (partsOfAll (n :: ns)) b c) : Agree t (partsOfAll ns) b c :=
  h.mono partsOfAll_tail

theorem firstCall (h : Agree t (partsOfCalls (ns :: calls)) b c) : Agree t (partsOfAll ns) b c :=
  h.mono partsOfCalls_head

theorem laterCalls (h : Agree t (partsOfCalls (ns :: calls)) b c) :
    Agree t (partsOfCalls calls) b c :=
  h.mono partsOfCalls_tail

theorem key {e : Node × Node} (h : Agree t (partsOfEntries (e :: es)) b c) :
    Agree t e.1.parts b c :=
  h.mono partsOfEntries_key

theorem entry {e : Node × Node} (h : Agree t (partsOfEntries (e :: es)) b c) :
    Agree t e.2.parts b c :=
  h.mono partsOfEntries_value

theorem laterEntries {e : Node × Node} (h : Agree t (partsOfEntries (e :: es)) b c) :
    Agree t (partsOfEntries es) b c :=
  h.mono partsOfEntries_tail

theorem ofName {x : String} (h : Agree t (Node.name x).parts b c) :
    b.expression? x = c.expression? x :=
  h.name x List.mem_cons_self

theorem segments (h : Agree t (Node.template ns).parts b c) : Agree t (partsOfAll ns) b c :=
  h.mono Node.parts_template

theorem deferred (h : Agree t (Node.deferred n).parts b c) : Agree t n.parts b c :=
  h.mono Node.parts_deferred

theorem dynamic (h : Agree t (Node.dynamic n).parts b c) : Agree t n.parts b c :=
  h.mono Node.parts_dynamic

theorem base (h : Agree t (Node.path n ss).parts b c) : Agree t n.parts b c :=
  h.mono Node.parts_base

theorem steps (h : Agree t (Node.path n ss).parts b c) : Agree t (partsOfSteps ss) b c :=
  h.mono Node.parts_steps

theorem argumentLists {x y : String} (h : Agree t (Node.call x y calls).parts b c) :
    Agree t (partsOfCalls calls) b c :=
  h.mono Node.parts_calls

theorem body {ps : List String} (h : Agree t (Node.lambda ps n calls).parts b c) :
    Agree t n.parts b c :=
  h.mono Node.parts_body

theorem ownCalls {ps : List String} (h : Agree t (Node.lambda ps n calls).parts b c) :
    Agree t (partsOfCalls calls) b c :=
  h.mono Node.parts_ownCalls

theorem operand {op : UnaryOp} (h : Agree t (Node.unary op n).parts b c) : Agree t n.parts b c :=
  h.mono Node.parts_operand

theorem left {op : BinaryOp} (h : Agree t (Node.binary op n m).parts b c) : Agree t n.parts b c :=
  h.mono Node.parts_left

theorem right {op : BinaryOp} (h : Agree t (Node.binary op n m).parts b c) :
    Agree t m.parts b c :=
  h.mono Node.parts_right

theorem condition (h : Agree t (Node.choice n m k).parts b c) : Agree t n.parts b c :=
  h.mono Node.parts_condition

theorem chosen (h : Agree t (Node.choice n m k).parts b c) {x : Node} (hx : x = m ∨ x = k) :
    Agree t x.parts b c :=
  h.mono (Node.parts_chosen hx)

theorem target (h : Agree t (Node.assign n m).parts b c) : Agree t n.parts b c :=
  h.mono Node.parts_target

theorem value (h : Agree t (Node.assign n m).parts b c) : Agree t m.parts b c :=
  h.mono Node.parts_value

theorem first (h : Agree t (Node.sequence n m).parts b c) : Agree t n.parts b c :=
  h.mono Node.parts_first

theorem second (h : Agree t (Node.sequence n m).parts b c) : Agree t m.parts b c :=
  h.mono Node.parts_second

theorem listItems (h : Agree t (Node.list ns).parts b c) : Agree t (partsOfAll ns) b c :=
  h.mono Node.parts_list

theorem setItems (h : Agree t (Node.set ns).parts b c) : Agree t (partsOfAll ns) b c :=
  h.mono Node.parts_set

theorem entries (h : Agree t (Node.map es).parts b c) : Agree t (partsOfEntries es) b c :=
  h.mono Node.parts_map

end Nodes

end Bound.Agree

namespace Evaluation

open ExprLang.Action (Sim)

variable {host : Host} {handle : Handler} (hf : Faithful host handle) {b c : Bound}
include hf

/-! ## Operators and names -/

theorem truth_sim {n : Node} (hb : Bound.Agree host.classes n.parts b c) :
    Sim host.classes Eq (truth handle b n) (truth handle c n) :=
  .bind (hf.handler (.eval hb)) fun _ _ hv => .bind .heap fun _ _ hh =>
    .ofExcept_eq (hh.resembles hv).toBool

theorem unary_sim (op : UnaryOp) {n : Node} (hb : Bound.Agree host.classes n.parts b c) :
    Sim host.classes (Value.Alike host.classes) (unary handle b op n) (unary handle c op n) := by
  refine .bind (hf.handler (.eval hb)) fun v w hv => .bind .heap fun h k hh => ?_
  cases op with
  | neg => exact .ofExcept (.alike_of_eq (hh.resembles hv).neg)
  | not =>
    have htruth := (hh.resembles hv).toBool
    exact .ofExcept (.alike_of_eq (by rw [htruth]))
  | empty =>
    have hempty := hh.observe hv Comparison.bare_isEmpty Comparison.isEmpty_bare
    exact .pure (by rw [hempty]; exact .same _)

theorem strict_sim (op : BinaryOp) {left right : Node}
    (hl : Bound.Agree host.classes left.parts b c) (hr : Bound.Agree host.classes right.parts b c) :
    Sim host.classes (Value.Alike host.classes)
      (do
        let v ← handle (.eval b left)
        let w ← handle (.eval b right)
        Action.ofExcept (applyStrict (← Action.heap) op v w))
      (do
        let v ← handle (.eval c left)
        let w ← handle (.eval c right)
        Action.ofExcept (applyStrict (← Action.heap) op v w)) :=
  .bind (hf.handler (.eval hl)) fun _ _ hv => .bind (hf.handler (.eval hr)) fun _ _ hw =>
    .bind .heap fun _ _ hh => .ofExcept (.alike_of_eq ((hh.compares hv hw).applyStrict op))

theorem binary_sim (op : BinaryOp) {left right : Node}
    (hl : Bound.Agree host.classes left.parts b c) (hr : Bound.Agree host.classes right.parts b c) :
    Sim host.classes (Value.Alike host.classes) (binary handle b op left right)
      (binary handle c op left right) := by
  have right_truth : Sim host.classes (Value.Alike host.classes)
      (Value.bool <$> truth handle b right) (Value.bool <$> truth handle c right) :=
    .map (truth_sim hf hr) fun _ _ h => by rw [h]; exact .same _
  cases op with
  | and => exact .bind (truth_sim hf hl) fun _ _ h => .ite_eq h right_truth (.pure (.same _))
  | or => exact .bind (truth_sim hf hl) fun _ _ h => .ite_eq h (.pure (.same _)) right_truth
  | elvis =>
    exact .bind (hf.handler (.eval hl)) fun _ _ hv => .bind .heap fun _ _ hh =>
      .bind (.ofExcept_eq (hh.resembles hv).toBool) fun _ _ h =>
      .ite_eq h (.pure hv) (hf.handler (.eval hr))
  | coalesce =>
    exact .bind (hf.handler (.eval hl)) fun _ _ hv =>
      .ite_eq hv.isNull_eq (hf.handler (.eval hr)) (.pure hv)
  | _ => exact strict_sim hf _ hl hr

theorem branch_sim {condition yes no : Node} (hb : Bound.Agree host.classes condition.parts b c) :
    Sim host.classes (fun n m => n = m ∧ (n = yes ∨ n = no)) (branch handle b condition yes no)
      (branch handle c condition yes no) :=
  .bind (truth_sim hf hb) fun _ _ h =>
    .ite_eq h (.pure ⟨rfl, .inl rfl⟩) (.pure ⟨rfl, .inr rfl⟩)

theorem findValue_sim {name : String} (hb : b.expression? name = c.expression? name) :
    Sim host.classes (Option.Rel (Value.Alike host.classes)) (findValue host handle b name)
      (findValue host handle c name) := by
  refine .bind .context fun d e hde => ?_
  have harg := hde.argument? name
  generalize d.argument? name = x at harg
  generalize e.argument? name = y at harg
  cases harg with
  | some hv => exact .pure (.some hv)
  | none =>
    rw [hb]
    cases c.expression? name with
    | some e => exact .map (read_sim hf (.refl _ e)) fun _ _ hv => .some hv
    | none =>
      exact .bind (Resolution.resolve_sim hf (.get (.same _) (.same _))) fun _ _ hv =>
        .bind .isResolved fun _ _ hr => .ite_eq hr (.pure (.some hv)) (.pure .none)

theorem nameValue_sim {name : String} (hb : b.expression? name = c.expression? name) :
    Sim host.classes (Value.Alike host.classes) (nameValue host handle b name)
      (nameValue host handle c name) := by
  refine .bind (findValue_sim hf hb) fun x y hxy => ?_
  cases hxy with
  | some hv => exact .pure hv
  | none =>
    refine .bind .context fun d e hde => ?_
    rw [hde.imports]
    dsimp only
    split
    · exact Resolution.get_sim hf (.same _) (.same _)
    · exact .pure (.same _)
    · exact .fail _

/-! ## Paths and calls -/

theorem evalAll_sim {ns : List Node} (hb : Bound.Agree host.classes (partsOfAll ns) b c) :
    Sim host.classes (List.Forall₂ (Value.Alike host.classes)) (evalAll handle b ns)
      (evalAll handle c ns) := by
  induction ns with
  | nil => exact .pure .nil
  | cons n ns ih =>
    have hn := hb.head
    have hns := hb.tail
    exact .bind (hf.handler (.eval hn)) fun _ _ hv => .bind (ih hns) fun _ _ hvs =>
      .pure (.cons hv hvs)

theorem selected_sim {s : Selector} (hb : Bound.Agree host.classes (partsOfSelector s) b c) :
    Sim host.classes (Value.Alike host.classes) (selected handle b s) (selected handle c s) := by
  cases s with
  | field name => exact .pure (.same _)
  | index n => exact hf.handler (.eval hb)

theorem follow_sim {s : Step} (hb : Bound.Agree host.classes (partsOfStep s) b c) {v w : Value}
    (hv : Value.Alike host.classes v w) :
    Sim host.classes (Value.Alike host.classes) (follow host handle b v s)
      (follow host handle c w s) := by
  refine .bind (selected_sim hf hb.selector) fun p q hp => ?_
  cases hs : s.args? with
  | some args =>
    exact .bind (evalAll_sim hf (hb.args hs)) fun _ _ hvs =>
      Resolution.invoke_sim hf none hv hp hvs
  | none => exact .ite_eq hp.isNull_eq (.pure (.same _)) (Resolution.get_sim hf hv hp)

theorem walk_sim {ss : List Step} (hb : Bound.Agree host.classes (partsOfSteps ss) b c)
    {v w : Value} (hv : Value.Alike host.classes v w) :
    Sim host.classes (Value.Alike host.classes) (walk host handle b v ss)
      (walk host handle c w ss) := by
  induction ss generalizing v w with
  | nil => exact .pure hv
  | cons s ss ih =>
    have hs := hb.mono (partsOfStep_subset List.mem_cons_self)
    have hss := hb.mono (partsOfSteps_subset (List.subset_cons_self s ss))
    exact .ite_eq hv.isNull_eq (.pure (.same _)) <|
      .bind (follow_sim hf hs hv) fun _ _ hu => ih hss hu

theorem reach_sim {ss : List Step} (hb : Bound.Agree host.classes (partsOfSteps ss) b c)
    {v w : Value} (hv : Value.Alike host.classes v w) :
    Sim host.classes (Value.Alike host.classes) (reach host handle b v ss)
      (reach host handle c w ss) := by
  induction ss generalizing v w with
  | nil => exact .pure hv
  | cons s ss ih =>
    have hs := hb.mono (partsOfStep_subset List.mem_cons_self)
    have hss := hb.mono (partsOfSteps_subset (List.subset_cons_self s ss))
    exact .bind (follow_sim hf hs hv) fun _ _ hu => .ite_eq hu.isNull_eq (.fail _) (ih hss hu)

/-- Both sides reach values that are alike, before the same step of the path. -/
theorem target_sim {base : Node} {steps : List Step}
    (hb : Bound.Agree host.classes (Node.path base steps).parts b c) :
    Sim host.classes
      (fun t u => Value.Alike host.classes t.1 u.1 ∧ t.2 = u.2 ∧
        Bound.Agree host.classes (partsOfStep t.2) b c)
      (target host handle b base steps) (target host handle c base steps) := by
  have hbase := hb.base
  have hsteps := hb.steps
  unfold target
  split
  · exact .fail _
  · next last hlast =>
    have hinit := hsteps.mono (partsOfSteps_subset (List.dropLast_subset steps))
    have hend := hsteps.mono (partsOfStep_subset (List.mem_of_getLast? hlast))
    exact .bind (hf.handler (.eval hbase)) fun _ _ hv => .ite_eq hv.isNull_eq (.fail _) <|
      .bind (reach_sim hf hinit hv) fun _ _ hw => .pure ⟨hw, rfl, hend⟩

theorem callChain_sim (key : String) {calls : List (List Node)}
    (hb : Bound.Agree host.classes (partsOfCalls calls) b c) {v w : Value}
    (hv : Value.Alike host.classes v w) :
    Sim host.classes (Value.Alike host.classes) (callChain handle b key v calls)
      (callChain handle c key w calls) := by
  induction calls generalizing v w with
  | nil => exact .pure hv
  | cons args rest ih =>
    have hargs := hb.firstCall
    have hrest := hb.laterCalls
    refine .bind (evalAll_sim hf hargs) fun vs ws hvs => ?_
    have called {f g : Closure} (hg : Value.Alike host.classes (.lambda f) (.lambda g)) :
        Sim host.classes (Value.Alike host.classes)
          (f.invoke handle vs >>= fun v => callChain handle b key v rest)
          (g.invoke handle ws >>= fun w => callChain handle c key w rest) :=
      .bind (closure_sim hf hg hvs) fun _ _ hu => ih hrest hu
    cases hv with
    | lambda hbody hcaptured => exact called (.lambda hbody hcaptured)
    | same =>
      cases v with
      | lambda f => exact called (.same _)
      | _ =>
        exact .bind .heap fun h k hh => by
          rw [hh.typeName (.same _)]
          exact .fail _

theorem callImported_sim (name : String) {first : List Node} {rest : List (List Node)}
    (hb : Bound.Agree host.classes (partsOfCalls (first :: rest)) b c) :
    Sim host.classes (Value.Alike host.classes) (callImported host handle b name first rest)
      (callImported host handle c name first rest) := by
  have hfirst := hb.firstCall
  have hrest := hb.laterCalls
  have called (owner : ClassId) (method : String) : Sim host.classes (Value.Alike host.classes)
      (do
        let vs ← evalAll handle b first
        let v ← Resolution.invoke host handle (.cls owner) (.text method) none vs
        callChain handle b name v rest)
      (do
        let vs ← evalAll handle c first
        let v ← Resolution.invoke host handle (.cls owner) (.text method) none vs
        callChain handle c name v rest) :=
    .bind (evalAll_sim hf hfirst) fun _ _ hvs =>
      .bind (Resolution.invoke_sim hf none (.same _) (.same _) hvs) fun _ _ hv =>
      callChain_sim hf name hrest hv
  refine .bind .context fun d e hde => ?_
  rw [hde.imports]
  dsimp only
  cases e.imports.classes.find? name with
  | some owner => exact called owner _
  | none =>
    cases e.imports.statics.find? name with
    | some owner => exact called owner name
    | none => exact .fail _

theorem call_sim {ns name : String} {calls : List (List Node)}
    (hb : Bound.Agree host.classes (Node.call ns name calls).parts b c) :
    Sim host.classes (Value.Alike host.classes) (call host handle b ns name calls)
      (call host handle c ns name calls) := by
  have hcalls := hb.argumentLists
  have hmem : Node.call ns name calls ∈ (Node.call ns name calls).parts := List.mem_cons_self
  have hmethod := hb.function ns name calls hmem
  unfold call
  dsimp only
  cases calls with
  | nil => exact .fail _
  | cons first rest =>
    have hfirst := hcalls.firstCall
    have hrest := hcalls.laterCalls
    rw [← hmethod]
    cases hm : b.method? host.classes ns name with
    | some m =>
      obtain ⟨id, -, hid⟩ := Option.bind_eq_some_iff.mp hm
      refine .bind (evalAll_sim hf hfirst) fun vs ws hvs => ?_
      rw [hvs.length_eq]
      exact .bind (.ofExcept_eq rfl) fun _ _ _ =>
        .bind (method_invoke_sim hf (ClassTable.declares_of_method? hid) (.same _) hvs)
          fun _ _ hv => callChain_sim hf _ hrest hv
    | none =>
      dsimp only
      by_cases hns : ns.isEmpty
      · rw [hns]
        refine .bind (findValue_sim hf (hb.called ns name _ hmem hns hm)) fun x y hxy => ?_
        cases hxy with
        | none => exact callImported_sim hf name hcalls
        | @some v w hv =>
          cases hv with
          | lambda hbody hcaptured => exact callChain_sim hf _ hcalls (.lambda hbody hcaptured)
          | same =>
            cases v with
            | lambda f => exact callChain_sim hf _ hcalls (.same _)
            | _ => exact callImported_sim hf name hcalls
      · rw [Bool.eq_false_iff.mpr hns]
        exact .fail _

/-! ## Tasks -/

theorem joinParts_sim {ns : List Node} (hb : Bound.Agree host.classes (partsOfAll ns) b c) :
    Sim host.classes Eq (joinParts handle b ns) (joinParts handle c ns) := by
  induction ns with
  | nil => exact .pure rfl
  | cons n ns ih =>
    have hn := hb.head
    have hns := hb.tail
    exact .bind (hf.handler (.eval hn)) fun _ _ hv => .bind .heap fun h k hh => by
      rw [(hh.resembles hv).toText]
      exact .bind (ih hns) fun _ _ hs => .pure (by rw [hs])

theorem evalEntries_sim {es : List (Node × Node)}
    (hb : Bound.Agree host.classes (partsOfEntries es) b c) :
    Sim host.classes (List.Forall₂ (Value.AlikePair host.classes)) (evalEntries handle b es)
      (evalEntries handle c es) := by
  induction es with
  | nil => exact .pure .nil
  | cons e es ih =>
    have hkey := hb.key
    have hvalue := hb.entry
    have hes := hb.laterEntries
    exact .bind (hf.handler (.eval hkey)) fun _ _ hv => .bind (hf.handler (.eval hvalue))
      fun _ _ hw => .bind (ih hes) fun _ _ hvs => .pure (.cons ⟨hv, hw⟩ hvs)

theorem eval_sim {n : Node} (hb : Bound.Agree host.classes n.parts b c) :
    Sim host.classes (Value.Alike host.classes) (eval host handle b n) (eval host handle c n) := by
  cases n with
  | plain text => exact .pure (.same _)
  | template parts =>
    exact .map (joinParts_sim hf hb.segments) fun _ _ hs => by rw [hs]; exact .same _
  | deferred body => exact hf.handler (.eval hb.deferred)
  | dynamic body => exact hf.handler (.eval hb.dynamic)
  | null => exact .pure (.same _)
  | boolean t => exact .pure (.same _)
  | integer text => exact .ofExcept (.alike_of_eq rfl)
  | floating text => exact .ofExcept (.alike_of_eq rfl)
  | text content => exact .pure (.same _)
  | name name => exact nameValue_sim hf hb.ofName
  | path base steps =>
    have hbase := hb.base
    have hsteps := hb.steps
    exact .bind (hf.handler (.eval hbase)) fun _ _ hv => walk_sim hf hsteps hv
  | call ns name calls => exact call_sim hf hb
  | lambda params body calls =>
    have hbody := hb.body
    have hcalls := hb.ownCalls
    exact .bind .context fun d e hde =>
      callChain_sim hf _ hcalls (.lambda hbody hde.arguments)
  | unary op operand => exact unary_sim hf op hb.operand
  | binary op left right =>
    exact binary_sim hf op hb.left hb.right
  | choice condition yes no =>
    refine .bind (branch_sim hf hb.condition) fun _ _ ⟨he, hn⟩ => ?_
    subst he
    exact hf.handler (.eval (hb.chosen hn))
  | assign target value =>
    have htarget := hb.target
    have hvalue := hb.value
    exact .bind (hf.handler (.eval hvalue)) fun _ _ hv =>
      .bind (hf.handler (.assign htarget hv)) fun _ _ _ => .pure hv
  | sequence first second =>
    exact .bind (hf.handler (.eval hb.first)) fun _ _ _ => hf.handler (.eval hb.second)
  | list items =>
    exact .bind (evalAll_sim hf hb.listItems) fun _ _ hvs =>
      .build fun h k hh => hh.newList hvs
  | set items =>
    exact .bind (evalAll_sim hf hb.setItems) fun _ _ hvs =>
      .build fun h k hh => hh.newSet hvs
  | map entries =>
    exact .bind (evalEntries_sim hf hb.entries) fun _ _ hes => .build fun h k hh => hh.newMap hes

theorem convertForWrite_sim {v w p q x y : Value} (hv : Value.Alike host.classes v w)
    (hp : Value.Alike host.classes p q) (hx : Value.Alike host.classes x y) :
    Sim host.classes (Value.Alike host.classes) (convertForWrite host handle v p x)
      (convertForWrite host handle w q y) := by
  refine .bind (Resolution.resolve_sim hf (.type hv hp)) fun type _ ht =>
    .bind .isResolved fun _ _ hr => ?_
  subst ht
  cases type with
  | none => exact .pure hx
  | some type => exact .ite_eq (by rw [hr, hx.isNull_eq]) (convert_sim hf.blind hx type) (.pure hx)

theorem assign_sim {n : Node} (hb : Bound.Agree host.classes n.parts b c) {v w : Value}
    (hv : Value.Alike host.classes v w) :
    Sim host.classes Eq (assign host handle b n v) (assign host handle c n w) := by
  cases n with
  | deferred body => exact hf.handler (.assign hb.deferred hv)
  | dynamic body => exact hf.handler (.assign hb.dynamic hv)
  | name name =>
    refine .bind .context fun d e hde => .ite_eq (hde.isArgument name) (.fail _) ?_
    rw [hb.ofName]
    cases c.expression? name with
    | some e => exact write_sim hf (.refl _ e) hv
    | none => exact Resolution.set_sim hf (.same _) (.same _) hv
  | path base steps =>
    refine .bind (target_sim hf hb) fun (_, last) (_, _) ⟨hbase, hlast, hstep⟩ => ?_
    cases hlast
    exact .ite_eq rfl (.fail _) <| .bind (selected_sim hf hstep.selector) fun _ _ hp =>
      .bind (convertForWrite_sim hf hbase hp hv) fun _ _ hw => Resolution.set_sim hf hbase hp hw
  | choice condition yes no =>
    refine .bind (branch_sim hf hb.condition) fun _ _ ⟨he, hn⟩ => ?_
    subst he
    exact hf.handler (.assign (hb.chosen hn) hv)
  | sequence first second =>
    exact .bind (hf.handler (.eval hb.first)) fun _ _ _ => hf.handler (.assign hb.second hv)
  | _ => exact .fail _

theorem typeOfValue_sim {n : Node} (hb : Bound.Agree host.classes n.parts b c) :
    Sim host.classes Eq (typeOfValue handle b n) (typeOfValue handle c n) :=
  .bind (hf.handler (.eval hb)) fun _ _ hv => .bind .heap fun _ _ hh => .pure (hh.typeOf? hv)

theorem typeOf_sim {n : Node} (hb : Bound.Agree host.classes n.parts b c) :
    Sim host.classes Eq (typeOf host handle b n) (typeOf host handle c n) := by
  cases n with
  | deferred body => exact hf.handler (.typeOf hb.deferred)
  | dynamic body => exact hf.handler (.typeOf hb.dynamic)
  | name name =>
    refine .bind .context fun d e hde => .ite_eq (hde.isArgument name) (.pure rfl) ?_
    rw [hb.ofName]
    cases c.expression? name with
    | some e => exact type?_sim hf (.refl _ e)
    | none => exact Resolution.type_sim hf (.same _) (.same _)
  | path base steps =>
    refine .bind (target_sim hf hb) fun (_, last) (_, _) ⟨hbase, hlast, hstep⟩ => ?_
    cases hlast
    exact .ite_eq rfl (.pure rfl) <| .bind (selected_sim hf hstep.selector) fun _ _ hp =>
      Resolution.type_sim hf hbase hp
  | call ns name calls =>
    match calls with
    | [] => exact typeOfValue_sim hf hb
    | [args] =>
      simp only [typeOf]
      rw [hb.function ns name [args] List.mem_cons_self]
      cases c.method? host.classes ns name with
      | some m => exact .pure rfl
      | none => exact typeOfValue_sim hf hb
    | _ :: _ :: _ => exact typeOfValue_sim hf hb
  | choice condition yes no =>
    refine .bind (branch_sim hf hb.condition) fun _ _ ⟨he, hn⟩ => ?_
    subst he
    exact hf.handler (.typeOf (hb.chosen hn))
  | sequence first second => exact hf.handler (.typeOf hb.second)
  | _ => exact typeOfValue_sim hf hb

theorem readOnly_sim {n : Node} (hb : Bound.Agree host.classes n.parts b c) :
    Sim host.classes Eq (readOnly host handle b n) (readOnly host handle c n) := by
  cases n with
  | deferred body => exact hf.handler (.readOnly hb.deferred)
  | dynamic body => exact hf.handler (.readOnly hb.dynamic)
  | name name =>
    refine .bind .context fun d e hde => .ite_eq (hde.isArgument name) (.pure rfl) ?_
    rw [hb.ofName]
    cases c.expression? name with
    | some e => exact isReadOnly_sim hf (.refl _ e)
    | none => exact Resolution.readOnly_sim hf (.same _) (.same _)
  | path base steps =>
    refine .bind (target_sim hf hb) fun (_, last) (_, _) ⟨hbase, hlast, hstep⟩ => ?_
    cases hlast
    exact .ite_eq rfl (.pure rfl) <| .bind (selected_sim hf hstep.selector) fun _ _ hp =>
      Resolution.readOnly_sim hf hbase hp
  | choice condition yes no =>
    refine .bind (branch_sim hf hb.condition) fun _ _ ⟨he, hn⟩ => ?_
    subst he
    exact hf.handler (.readOnly (hb.chosen hn))
  | sequence first second => exact hf.handler (.readOnly hb.second)
  | _ => exact .pure rfl

/-! ## Methods -/

theorem methodNamed_sim {name : String} (hb : b.expression? name = c.expression? name) :
    Sim host.classes Eq (methodNamed host handle b name) (methodNamed host handle c name) := by
  have other {v w : Value} (hv : Value.Alike host.classes v w) : Sim host.classes Eq
      (do Action.fail (.notMethod name ((← Action.heap).typeName v)) : Action MethodExpr)
      (do Action.fail (.notMethod name ((← Action.heap).typeName w))) :=
    .bind .heap fun h k hh => by
      rw [hh.typeName hv]
      exact .fail _
  unfold methodNamed
  rw [hb]
  rcases c.expression? name with _ | e
  case' none =>
    refine .bind (Resolution.resolve_sim hf (.get (.same _) (.same _))) fun v w hv => ?_
  case' some => refine .bind (read_sim hf (.refl _ e)) fun v w hv => ?_
  all_goals
    cases hv with
    | lambda hbody hcaptured => exact other (.lambda hbody hcaptured)
    | same =>
      cases v with
      | method m => exact .pure rfl
      | null => exact .fail _
      | _ => exact other (.same _)

theorem invoke_sim {n : Node} (types : Option (List TypeRef))
    (hb : Bound.Agree host.classes n.parts b c) {vs ws : List Value}
    (hvs : List.Forall₂ (Value.Alike host.classes) vs ws) :
    Sim host.classes (Value.Alike host.classes) (invoke host handle b n types vs)
      (invoke host handle c n types ws) := by
  cases n with
  | deferred body => exact hf.handler (.invoke types hb.deferred hvs)
  | dynamic body => exact hf.handler (.invoke types hb.dynamic hvs)
  | path base steps =>
    refine .bind (target_sim hf hb) fun (_, last) (_, _) ⟨hbase, hlast, hstep⟩ => ?_
    cases hlast
    refine .bind (selected_sim hf hstep.selector) fun _ _ hp => ?_
    cases hs : last.args? with
    | some own =>
      exact .bind (evalAll_sim hf (hstep.args hs)) fun _ _ hown =>
        Resolution.invoke_sim hf none hbase hp hown
    | none => exact Resolution.invoke_sim hf types hbase hp hvs
  | name name =>
    refine .bind (methodNamed_sim hf hb.ofName) fun m _ hm => ?_
    subst hm
    exact methodExpr_invoke_sim hf m hvs
  | choice condition yes no =>
    refine .bind (branch_sim hf hb.condition) fun _ _ ⟨he, hn⟩ => ?_
    subst he
    exact hf.handler (.invoke types (hb.chosen hn) hvs)
  | sequence first second =>
    exact .bind (hf.handler (.eval hb.first)) fun _ _ _ => hf.handler (.invoke types hb.second hvs)
  | _ => exact .fail _

omit hf in
theorem methodsOf_eq {h k : Heap} (hh : Heap.Alike host.classes h k) {v w : Value}
    (hv : Value.Alike host.classes v w) : methodsOf host h v = methodsOf host k w := by
  simp only [methodsOf, hh.classOf? hv, hh.lineage]
  cases hv with
  | lambda _ _ => rfl
  | same => rfl

omit hf in
theorem describeMethod_sim (types : Option (List TypeRef)) {v w p q : Value}
    (hv : Value.Alike host.classes v w) (hp : Value.Alike host.classes p q) :
    Sim host.classes Eq (describeMethod host v p types) (describeMethod host w q types) := by
  refine .bind .heap fun h k hh => ?_
  rw [Resolution.nameOf_eq hh hp]
  refine .bind (.ofExcept_eq rfl) fun name _ hn => ?_
  subst hn
  rw [methodsOf_eq hh hv]
  dsimp only
  split
  · exact .pure rfl
  · rw [Resolution.find_eq hh .nil]
    exact .map (.ofExcept_eq rfl) fun _ _ hm => by rw [hm]

theorem info_sim {n : Node} (types : Option (List TypeRef))
    (hb : Bound.Agree host.classes n.parts b c) :
    Sim host.classes Eq (info host handle b n types) (info host handle c n types) := by
  cases n with
  | deferred body => exact hf.handler (.info types hb.deferred)
  | dynamic body => exact hf.handler (.info types hb.dynamic)
  | path base steps =>
    refine .bind (target_sim hf hb) fun (_, last) (_, _) ⟨hbase, hlast, hstep⟩ => ?_
    cases hlast
    exact .ite_eq rfl (.pure rfl) <| .bind (selected_sim hf hstep.selector) fun _ _ hp =>
      .map (describeMethod_sim types hbase hp) fun _ _ hm => by rw [hm]
  | name name =>
    refine .bind (methodNamed_sim hf hb.ofName) fun m _ hm => ?_
    subst hm
    exact methodExpr_info_sim hf m
  | choice condition yes no =>
    refine .bind (branch_sim hf hb.condition) fun _ _ ⟨he, hn⟩ => ?_
    subst he
    exact hf.handler (.info types (hb.chosen hn))
  | sequence first second =>
    exact .bind (hf.handler (.eval hb.first)) fun _ _ _ => hf.handler (.info types hb.second)
  | _ => exact .fail _

theorem step_respects {α : Type} {r : α → α → Prop} {k k' : Task α}
    (hk : Task.Alike host.classes r k k') :
    Sim host.classes r (step host handle k) (step host handle k') := by
  cases hk with
  | eval hb => exact eval_sim hf hb
  | assign hb hv => exact assign_sim hf hb hv
  | typeOf hb => exact typeOf_sim hf hb
  | readOnly hb => exact readOnly_sim hf hb
  | invoke types hb hvs => exact invoke_sim hf types hb hvs
  | info types hb => exact info_sim hf types hb

omit hf in
/-- Runs of tasks that are alike end alike, at every depth. -/
theorem run_respects (hb : host.Blind) (depth : Nat) :
    Handler.Respects host.classes (run host depth) := by
  induction depth with
  | zero => exact fun _ _ _ _ => .exhausted
  | succ depth ih => exact fun hk => step_respects ⟨hb, ih⟩ hk

end Evaluation

end ExprLang
