import ExprLang.Proofs.Resolution.Tracked

/-! A step of a task only writes to cells as known where the tasks inside it do, and so does every run. -/

namespace ExprLang.Evaluation

open Regime (Tracks lasting_any lasting_knows)

variable {α : Type} {R : Regime} {m : Memory} {handle : Handler} {b : Bound}

section Step

variable (hs : R.Sound handle)
include hs

theorem handler_eval (hb : b.Grounded m.kinds) (n : Node) :
    R.Tracks m (handle (.eval b n)) Memory.Knows :=
  hs.handler m (.eval b n) hb

/-! ## Operators and names -/

theorem truth_tracks (hb : b.Grounded m.kinds) (n : Node) :
    R.Tracks m (truth handle b n) Memory.Any :=
  (handler_eval hs hb n).bind fun _ _ _ _ => .heap_bind fun _ _ => .ofExcept_any _

theorem unary_tracks (hb : b.Grounded m.kinds) (op : UnaryOp) (n : Node) :
    R.Tracks m (unary handle b op n) Memory.Knows := by
  refine (handler_eval hs hb n).bind fun v _ _ _ => .heap_bind fun m₁ _ => ?_
  cases op with
  | neg => exact .ofExcept_atom (Arithmetic.neg_atom m₁.heap v)
  | not => exact .ofExcept_atom (ResultIn.map_iff.mpr fun _ _ => rfl)
  | empty => exact .pure_value (Value.grounded_of_isAtom rfl)

theorem strict_tracks (hb : b.Grounded m.kinds) (op : BinaryOp) (left right : Node) :
    R.Tracks m (do
      let v ← handle (.eval b left)
      let w ← handle (.eval b right)
      Action.ofExcept (applyStrict (← Action.heap) op v w)) Memory.Knows :=
  (handler_eval hs hb left).bind fun v _ h₁ _ =>
    (handler_eval hs (hb.mono h₁.kinds) right).bind fun w _ _ _ => .heap_bind fun m₃ _ =>
    .ofExcept_atom (applyStrict_atom m₃.heap op v w)

theorem bool_tracks (hb : b.Grounded m.kinds) (n : Node) :
    R.Tracks m (Value.bool <$> truth handle b n) Memory.Knows :=
  (truth_tracks hs hb n).map _ fun _ _ _ _ => Value.grounded_of_isAtom rfl

theorem binary_tracks (hb : b.Grounded m.kinds) (op : BinaryOp) (left right : Node) :
    R.Tracks m (binary handle b op left right) Memory.Knows := by
  have bool (t : Bool) (m : Memory) : m.Knows (.bool t) := Value.grounded_of_isAtom rfl
  cases op with
  | and =>
    exact (truth_tracks hs hb left).bind fun _ m₁ h₁ _ =>
      .ite (bool_tracks hs (hb.mono h₁.kinds) right) (.pure_value (bool _ m₁))
  | or =>
    exact (truth_tracks hs hb left).bind fun _ m₁ h₁ _ =>
      .ite (.pure_value (bool _ m₁)) (bool_tracks hs (hb.mono h₁.kinds) right)
  | elvis =>
    refine (handler_eval hs hb left).bind fun v m₁ h₁ hv => .heap_bind fun m₂ h₂ =>
      (Tracks.ofExcept_any _).bind fun _ m₃ h₃ _ => ?_
    exact .ite (.pure_value (hv.mono (h₂.kinds.trans h₃.kinds)))
      (handler_eval hs (hb.mono (h₁.kinds.trans (h₂.kinds.trans h₃.kinds))) right)
  | coalesce =>
    exact (handler_eval hs hb left).bind fun v m₁ h₁ hv =>
      .ite (handler_eval hs (hb.mono h₁.kinds) right) (.pure_value hv)
  | _ => exact strict_tracks hs hb _ left right

theorem branch_tracks (hb : b.Grounded m.kinds) (condition yes no : Node) :
    R.Tracks m (branch handle b condition yes no) Memory.Any :=
  (truth_tracks hs hb condition).bind fun _ _ _ _ => .ite (.pure_any _) (.pure_any _)

theorem findValue_tracks (hb : b.Grounded m.kinds) (name : String) :
    R.Tracks m (findValue R.host handle b name) Memory.KnowsFound := by
  refine .context_bind fun m₁ c h₁ hc => ?_
  have hb₁ := hb.mono h₁.kinds
  cases hv : c.argument? name with
  | some v => exact .pure fun m₂ h₂ => Memory.knowsFound_some ((hc.argument? hv).mono h₂.kinds)
  | none =>
    cases he : b.expression? name with
    | some e =>
      exact (Regime.read_tracks hs (hb₁.expression? he)).map _ fun v m₂ _ hv =>
        Memory.knowsFound_some hv
    | none =>
      have hq : (Request.get .null (.text name)).Grounded m₁ :=
        ⟨Value.grounded_null, Value.grounded_of_isAtom rfl⟩
      refine (Resolution.resolve_tracks hs hq).bind fun v m₂ _ hv =>
        Tracks.isResolved.bind fun _ m₃ h₃ _ => .ite ?_ (.pure fun _ _ => nofun)
      exact .pure fun m₄ h₄ => Memory.knowsFound_some (hv.mono (h₃.kinds.trans h₄.kinds))

theorem nameValue_tracks (hb : b.Grounded m.kinds) (name : String) :
    R.Tracks m (nameValue R.host handle b name) Memory.Knows := by
  refine (findValue_tracks hs hb name).bind fun found m₁ _ hfound => ?_
  split
  · next v => exact .pure_value (hfound v rfl)
  · refine .context_bind fun m₂ c _ _ => ?_
    dsimp only
    split
    · exact Resolution.get_tracks hs (Value.grounded_of_isAtom rfl) (Value.grounded_of_isAtom rfl)
    · exact .pure_value (Value.grounded_of_isAtom rfl)
    · exact .fail _

/-! ## Paths and calls -/

theorem evalAll_tracks (hb : b.Grounded m.kinds) (ns : List Node) :
    R.Tracks m (evalAll handle b ns) Memory.KnowsAll := by
  induction ns generalizing m with
  | nil => exact .pure fun _ _ => nofun
  | cons n ns ih =>
    refine (handler_eval hs hb n).bind fun v m₁ h₁ hv =>
      (ih (hb.mono h₁.kinds)).bind fun vs m₂ h₂ hvs => .pure fun m₃ h₃ => ?_
    exact List.forall_mem_cons.mpr
      ⟨hv.mono (h₂.kinds.trans h₃.kinds), Value.grounded_all_mono hvs h₃.kinds⟩

theorem selected_tracks (hb : b.Grounded m.kinds) (s : Selector) :
    R.Tracks m (selected handle b s) Memory.Knows := by
  cases s with
  | field name => exact .pure_value (Value.grounded_of_isAtom rfl)
  | index n => exact handler_eval hs hb n

theorem follow_tracks (hb : b.Grounded m.kinds) {base : Value} (hbase : m.Knows base) (s : Step) :
    R.Tracks m (follow R.host handle b base s) Memory.Knows := by
  refine (selected_tracks hs hb s.selector).bind fun property m₁ h₁ hproperty => ?_
  have hbase₁ := hbase.mono h₁.kinds
  split
  · next args _ =>
    exact (evalAll_tracks hs (hb.mono h₁.kinds) args).bind fun vs m₂ h₂ hvs =>
      Resolution.invoke_tracks hs none (hbase₁.mono h₂.kinds) (hproperty.mono h₂.kinds) hvs
  · exact .ite (.pure_value Value.grounded_null) (Resolution.get_tracks hs hbase₁ hproperty)

theorem walk_tracks (hb : b.Grounded m.kinds) {v : Value} (hv : m.Knows v) (ss : List Step) :
    R.Tracks m (walk R.host handle b v ss) Memory.Knows := by
  induction ss generalizing m v with
  | nil => exact .pure_value hv
  | cons s ss ih =>
    exact .ite (.pure_value Value.grounded_null) <|
      (follow_tracks hs hb hv s).bind fun w m₁ h₁ hw => ih (hb.mono h₁.kinds) hw

theorem reach_tracks (hb : b.Grounded m.kinds) {v : Value} (hv : m.Knows v) (ss : List Step) :
    R.Tracks m (reach R.host handle b v ss) Memory.Knows := by
  induction ss generalizing m v with
  | nil => exact .pure_value hv
  | cons s ss ih =>
    exact (follow_tracks hs hb hv s).bind fun w m₁ h₁ hw =>
      .ite (.fail _) (ih (hb.mono h₁.kinds) hw)

theorem target_tracks (hb : b.Grounded m.kinds) (base : Node) (steps : List Step) :
    R.Tracks m (target R.host handle b base steps) fun m t => m.Knows t.1 := by
  unfold target
  split
  · exact .fail _
  · refine (handler_eval hs hb base).bind fun v m₁ h₁ hv => .ite (.fail _) ?_
    exact (reach_tracks hs (hb.mono h₁.kinds) hv _).bind fun w m₂ h₂ hw =>
      .pure fun m₃ h₃ => hw.mono h₃.kinds

theorem callChain_tracks (hb : b.Grounded m.kinds) (key : String) {v : Value} (hv : m.Knows v)
    (calls : List (List Node)) : R.Tracks m (callChain handle b key v calls) Memory.Knows := by
  induction calls generalizing m v with
  | nil => exact .pure_value hv
  | cons args rest ih =>
    refine (evalAll_tracks hs hb args).bind fun vs m₁ h₁ hvs => ?_
    split
    · next f =>
      exact (Regime.closure_tracks hs (hv.mono h₁.kinds).closure hvs).bind fun w m₂ h₂ hw =>
        ih (hb.mono (h₁.kinds.trans h₂.kinds)) hw
    · exact .heap_bind fun _ _ => .fail _

theorem callImported_tracks (hb : b.Grounded m.kinds) (name : String) (first : List Node)
    (rest : List (List Node)) :
    R.Tracks m (callImported R.host handle b name first rest) Memory.Knows := by
  have called {m : Memory} (hb : b.Grounded m.kinds) (c : ClassId) (method : String) :
      R.Tracks m (do
        let vs ← evalAll handle b first
        let v ← Resolution.invoke R.host handle (.cls c) (.text method) none vs
        callChain handle b name v rest) Memory.Knows :=
    (evalAll_tracks hs hb first).bind fun vs m₁ h₁ hvs =>
      (Resolution.invoke_tracks hs none (Value.grounded_of_isAtom rfl)
        (Value.grounded_of_isAtom rfl) hvs).bind fun v m₂ h₂ hv =>
      callChain_tracks hs (hb.mono (h₁.kinds.trans h₂.kinds)) name hv rest
  refine .context_bind fun m₁ c h₁ _ => ?_
  have hb₁ := hb.mono h₁.kinds
  dsimp only
  cases c.imports.classes.find? name with
  | some c => exact called hb₁ c _
  | none =>
    cases c.imports.statics.find? name with
    | some c => exact called hb₁ c name
    | none => exact .fail _

theorem call_tracks (hb : b.Grounded m.kinds) (ns name : String) (calls : List (List Node)) :
    R.Tracks m (call R.host handle b ns name calls) Memory.Knows := by
  unfold call
  dsimp only
  split
  · exact .fail _
  · next first rest =>
    split
    · next f hf =>
      obtain ⟨_, -, hdeclared⟩ := Option.bind_eq_some_iff.mp hf
      refine (evalAll_tracks hs hb first).bind fun vs m₁ h₁ hvs =>
        (Tracks.ofExcept_any _).bind fun _ m₂ h₂ _ => ?_
      refine (Regime.invoke_tracks hs (ClassTable.declares_of_method? hdeclared)
        Value.grounded_null (Value.grounded_all_mono hvs h₂.kinds)).bind fun v m₃ h₃ hv => ?_
      exact callChain_tracks hs (hb.mono (h₁.kinds.trans (h₂.kinds.trans h₃.kinds))) _ hv rest
    · refine .ite (.fail _) ((findValue_tracks hs hb name).bind fun found m₁ h₁ hfound => ?_)
      split
      · next f => exact callChain_tracks hs (hb.mono h₁.kinds) _ (hfound _ rfl) _
      · exact callImported_tracks hs (hb.mono h₁.kinds) name first rest

/-! ## Tasks -/

theorem joinParts_tracks (hb : b.Grounded m.kinds) (ns : List Node) :
    R.Tracks m (joinParts handle b ns) Memory.Any := by
  induction ns generalizing m with
  | nil => exact .pure_any _
  | cons n ns ih =>
    exact (handler_eval hs hb n).bind fun _ _ h₁ _ => .heap_bind fun m₂ h₂ =>
      (ih (hb.mono (h₁.kinds.trans h₂.kinds))).bind fun _ _ _ _ => .pure_any _

theorem evalEntries_tracks (hb : b.Grounded m.kinds) (es : List (Node × Node)) :
    R.Tracks m (evalEntries handle b es) fun m es => ∀ e ∈ es, m.Knows e.1 ∧ m.Knows e.2 := by
  induction es generalizing m with
  | nil => exact .pure fun _ _ => nofun
  | cons e es ih =>
    refine (handler_eval hs hb e.1).bind fun key m₁ h₁ hkey =>
      (handler_eval hs (hb.mono h₁.kinds) e.2).bind fun v m₂ h₂ hv =>
      (ih (hb.mono (h₁.kinds.trans h₂.kinds))).bind fun rest m₃ h₃ hrest =>
      .pure fun m₄ h₄ => List.forall_mem_cons.mpr ⟨⟨?_, ?_⟩, fun d hd => ?_⟩
    · exact hkey.mono (h₂.kinds.trans (h₃.kinds.trans h₄.kinds))
    · exact hv.mono (h₃.kinds.trans h₄.kinds)
    · exact ⟨(hrest d hd).1.mono h₄.kinds, (hrest d hd).2.mono h₄.kinds⟩

theorem eval_tracks (hb : b.Grounded m.kinds) (n : Node) :
    R.Tracks m (eval R.host handle b n) Memory.Knows := by
  cases n with
  | plain text => exact .pure_value (Value.grounded_of_isAtom rfl)
  | template parts =>
    exact (joinParts_tracks hs hb parts).map _ fun _ _ _ _ => Value.grounded_of_isAtom rfl
  | deferred body => exact handler_eval hs hb body
  | dynamic body => exact handler_eval hs hb body
  | null => exact .pure_value (Value.grounded_of_isAtom rfl)
  | boolean t => exact .pure_value (Value.grounded_of_isAtom rfl)
  | integer text => exact .ofExcept_atom (integerLiteral_atom text)
  | floating text => exact .ofExcept_atom (floatingLiteral_atom text)
  | text content => exact .pure_value (Value.grounded_of_isAtom rfl)
  | name name => exact nameValue_tracks hs hb name
  | path base steps =>
    exact (handler_eval hs hb base).bind fun v m₁ h₁ hv => walk_tracks hs (hb.mono h₁.kinds) hv steps
  | call ns name calls => exact call_tracks hs hb ns name calls
  | lambda params body calls =>
    refine .context_bind fun m₁ c h₁ hc => ?_
    have hb₁ := hb.mono h₁.kinds
    exact callChain_tracks hs hb₁ _
      (Value.grounded_lambda (Closure.grounded_mk hb₁ hc.arguments)) calls
  | unary op operand => exact unary_tracks hs hb op operand
  | binary op left right => exact binary_tracks hs hb op left right
  | choice condition yes no =>
    exact (branch_tracks hs hb condition yes no).bind fun chosen m₁ h₁ _ =>
      handler_eval hs (hb.mono h₁.kinds) chosen
  | assign target value =>
    exact (handler_eval hs hb value).bind fun v m₁ h₁ hv =>
      (hs.handler m₁ (.assign b target v) ⟨hb.mono h₁.kinds, hv⟩).bind fun _ m₂ h₂ _ =>
      .pure_value (hv.mono h₂.kinds)
  | sequence first second =>
    exact (handler_eval hs hb first).bind fun _ m₁ h₁ _ => handler_eval hs (hb.mono h₁.kinds) second
  | list items =>
    exact (evalAll_tracks hs hb items).bind fun vs m₁ h₁ hvs => fun m₂ w h₂ hw =>
      hw.build (m₂.newList_reached (Value.grounded_all_mono hvs h₂.kinds)) rfl
  | set items =>
    exact (evalAll_tracks hs hb items).bind fun vs m₁ h₁ hvs => fun m₂ w h₂ hw =>
      hw.build (m₂.newSet_reached (Value.grounded_all_mono hvs h₂.kinds)) rfl
  | map entries =>
    refine (evalEntries_tracks hs hb entries).bind fun es m₁ h₁ hes => fun m₂ w h₂ hw => ?_
    exact hw.build (m₂.newMap_reached fun e he =>
      ⟨(hes e he).1.mono h₂.kinds, (hes e he).2.mono h₂.kinds⟩) rfl

/-- What is converted for a write may be written: null does not get into an array of a primitive
type. -/
theorem convertForWrite_tracks {base property v : Value} (hbase : m.Knows base)
    (hproperty : m.Knows property) (hv : m.Knows v) :
    R.Tracks m (convertForWrite R.host handle base property v) fun m x =>
      (Request.set base property x).Grounded m := by
  have known : R.Tracks m (convertForWrite R.host handle base property v) Memory.Knows := by
    refine (Resolution.resolve_tracks hs (q := .type base property) ⟨hbase, hproperty⟩).bind
      fun t m₁ h₁ _ => Tracks.isResolved.bind fun claimed m₂ h₂ _ => ?_
    have hv₂ := hv.mono (h₁.kinds.trans h₂.kinds)
    cases t with
    | none => exact .pure_value hv₂
    | some t => exact .ite (Regime.convert_knows t hv₂) (.pure_value hv₂)
  intro m₁ w h₁ hw
  have hends := known m₁ w h₁ hw
  cases hrun : convertForWrite R.host handle base property v w with
  | value x u =>
    rw [hrun] at hends
    obtain ⟨m₂, h₂, hu, hx⟩ := hends
    have hk := h₁.kinds.trans h₂.kinds
    refine ⟨m₂, h₂, hu, hbase.mono hk, hproperty.mono hk, hx, ?_⟩
    rintro a c rfl hc rfl
    obtain ⟨d, hd⟩ := (hbase.mono h₁.kinds).has
    have hsame := Kinds.getElem?_of_prefix h₂.kinds hd
    rw [hc] at hsame
    cases hsame
    obtain ⟨-, -, hitem, -⟩ := (Resolution.convertForWrite_collection hw.layout rfl).mp hrun
    have htakes := Resolution.itemFor_takes hitem
    rw [hw.heap, Heap.component, m₁.grounded.array_component hd] at htakes
    exact htakes
  | fault e u =>
    rw [hrun] at hends
    exact hends
  | exhausted => trivial

theorem assign_tracks (hb : b.Grounded m.kinds) (n : Node) {v : Value} (hv : m.Knows v) :
    R.Tracks m (assign R.host handle b n v) Memory.Any := by
  cases n with
  | deferred body => exact hs.handler m (.assign b body v) ⟨hb, hv⟩
  | dynamic body => exact hs.handler m (.assign b body v) ⟨hb, hv⟩
  | name name =>
    refine .context_bind fun m₁ c h₁ _ => .ite (.fail _) ?_
    have hv₁ := hv.mono h₁.kinds
    cases he : b.expression? name with
    | some e => exact Regime.write_tracks hs ((hb.mono h₁.kinds).expression? he) hv₁
    | none =>
      exact Resolution.set_tracks hs
        ⟨Value.grounded_null, Value.grounded_of_isAtom rfl, hv₁, nofun⟩
  | path base steps =>
    refine (target_tracks hs hb base steps).bind fun t m₁ h₁ hbase => .ite (.fail _) ?_
    refine (selected_tracks hs (hb.mono h₁.kinds) _).bind fun property m₂ h₂ hproperty => ?_
    exact (convertForWrite_tracks hs (hbase.mono h₂.kinds) hproperty
      (hv.mono (h₁.kinds.trans h₂.kinds))).bind fun x m₃ _ hq => Resolution.set_tracks hs hq
  | choice condition yes no =>
    exact (branch_tracks hs hb condition yes no).bind fun chosen m₁ h₁ _ =>
      hs.handler m₁ (.assign b chosen v) ⟨hb.mono h₁.kinds, hv.mono h₁.kinds⟩
  | sequence first second =>
    exact (handler_eval hs hb first).bind fun _ m₁ h₁ _ =>
      hs.handler m₁ (.assign b second v) ⟨hb.mono h₁.kinds, hv.mono h₁.kinds⟩
  | _ => exact .fail _

theorem typeOfValue_tracks (hb : b.Grounded m.kinds) (n : Node) :
    R.Tracks m (typeOfValue handle b n) Memory.Any :=
  (handler_eval hs hb n).bind fun _ _ _ _ => .heap_bind fun _ _ => .pure_any _

theorem typeOf_tracks (hb : b.Grounded m.kinds) (n : Node) :
    R.Tracks m (typeOf R.host handle b n) Memory.Any := by
  cases n with
  | deferred body => exact hs.handler m (.typeOf b body) hb
  | dynamic body => exact hs.handler m (.typeOf b body) hb
  | name name =>
    refine .context_bind fun m₁ c h₁ _ => .ite (.pure_any _) ?_
    cases he : b.expression? name with
    | some e => exact Regime.type?_tracks hs ((hb.mono h₁.kinds).expression? he)
    | none => exact Resolution.type_tracks hs Value.grounded_null (Value.grounded_of_isAtom rfl)
  | path base steps =>
    refine (target_tracks hs hb base steps).bind fun t m₁ h₁ hbase => .ite (.pure_any _) ?_
    exact (selected_tracks hs (hb.mono h₁.kinds) _).bind fun property m₂ h₂ hproperty =>
      Resolution.type_tracks hs (hbase.mono h₂.kinds) hproperty
  | call ns name calls =>
    match calls with
    | [] => exact typeOfValue_tracks hs hb _
    | [args] =>
      simp only [typeOf]
      cases b.method? R.host.classes ns name with
      | some f => exact .pure_any _
      | none => exact typeOfValue_tracks hs hb _
    | _ :: _ :: _ => exact typeOfValue_tracks hs hb _
  | choice condition yes no =>
    exact (branch_tracks hs hb condition yes no).bind fun chosen m₁ h₁ _ =>
      hs.handler m₁ (.typeOf b chosen) (hb.mono h₁.kinds)
  | sequence first second => exact hs.handler m (.typeOf b second) hb
  | _ => exact typeOfValue_tracks hs hb _

theorem readOnly_tracks (hb : b.Grounded m.kinds) (n : Node) :
    R.Tracks m (readOnly R.host handle b n) Memory.Any := by
  cases n with
  | deferred body => exact hs.handler m (.readOnly b body) hb
  | dynamic body => exact hs.handler m (.readOnly b body) hb
  | name name =>
    refine .context_bind fun m₁ c h₁ _ => .ite (.pure_any _) ?_
    cases he : b.expression? name with
    | some e => exact Regime.isReadOnly_tracks hs ((hb.mono h₁.kinds).expression? he)
    | none => exact Resolution.readOnly_tracks hs Value.grounded_null (Value.grounded_of_isAtom rfl)
  | path base steps =>
    refine (target_tracks hs hb base steps).bind fun t m₁ h₁ hbase => .ite (.pure_any _) ?_
    exact (selected_tracks hs (hb.mono h₁.kinds) _).bind fun property m₂ h₂ hproperty =>
      Resolution.readOnly_tracks hs (hbase.mono h₂.kinds) hproperty
  | choice condition yes no =>
    exact (branch_tracks hs hb condition yes no).bind fun chosen m₁ h₁ _ =>
      hs.handler m₁ (.readOnly b chosen) (hb.mono h₁.kinds)
  | sequence first second => exact hs.handler m (.readOnly b second) hb
  | _ => exact .pure_any _

/-! ## Methods -/

theorem methodNamed_tracks (hb : b.Grounded m.kinds) (name : String) :
    R.Tracks m (methodNamed R.host handle b name) fun m x => x.Grounded m.kinds := by
  unfold methodNamed
  rcases he : b.expression? name with _ | e
  case' none =>
    refine (Resolution.resolve_tracks hs (q := .get .null (.text name))
      ⟨Value.grounded_null, Value.grounded_of_isAtom rfl⟩).bind fun v m₁ _ hv => ?_
  case' some =>
    refine (Regime.read_tracks hs (hb.expression? he)).bind fun v m₁ _ hv => ?_
  all_goals
    cases v with
    | method x => exact .pure fun m₂ h₂ => hv.method.mono h₂.kinds
    | null => exact .fail _
    | _ => exact .heap_bind fun _ _ => .fail _

theorem invoke_tracks (hb : b.Grounded m.kinds) (n : Node) (types : Option (List TypeRef))
    {args : List Value} (hargs : m.KnowsAll args) :
    R.Tracks m (invoke R.host handle b n types args) Memory.Knows := by
  cases n with
  | deferred body => exact hs.handler m (.invoke b body types args) ⟨hb, hargs⟩
  | dynamic body => exact hs.handler m (.invoke b body types args) ⟨hb, hargs⟩
  | path base steps =>
    refine (target_tracks hs hb base steps).bind fun t m₁ h₁ hbase =>
      (selected_tracks hs (hb.mono h₁.kinds) _).bind fun method m₂ h₂ hmethod => ?_
    have hk := h₁.kinds.trans h₂.kinds
    split
    · exact (evalAll_tracks hs (hb.mono hk) _).bind fun vs m₃ h₃ hvs =>
        Resolution.invoke_tracks hs none (hbase.mono (h₂.kinds.trans h₃.kinds))
          (hmethod.mono h₃.kinds) hvs
    · exact Resolution.invoke_tracks hs types (hbase.mono h₂.kinds) hmethod
        (Value.grounded_all_mono hargs hk)
  | name name =>
    exact (methodNamed_tracks hs hb name).bind fun x m₁ h₁ hx =>
      Regime.methodExpr_invoke_tracks hs hx (Value.grounded_all_mono hargs h₁.kinds)
  | choice condition yes no =>
    exact (branch_tracks hs hb condition yes no).bind fun chosen m₁ h₁ _ =>
      hs.handler m₁ (.invoke b chosen types args)
        ⟨hb.mono h₁.kinds, Value.grounded_all_mono hargs h₁.kinds⟩
  | sequence first second =>
    exact (handler_eval hs hb first).bind fun _ m₁ h₁ _ =>
      hs.handler m₁ (.invoke b second types args)
        ⟨hb.mono h₁.kinds, Value.grounded_all_mono hargs h₁.kinds⟩
  | _ => exact .fail _

omit hs in
theorem describeMethod_tracks (base property : Value) (types : Option (List TypeRef)) :
    R.Tracks m (describeMethod R.host base property types) Memory.Any := by
  refine .heap_bind fun m₁ _ => (Tracks.ofExcept_any _).bind fun name m₂ _ _ => ?_
  dsimp only
  split
  · exact .pure_any _
  · exact (Tracks.ofExcept_any _).map _ fun _ _ _ _ => trivial

theorem info_tracks (hb : b.Grounded m.kinds) (n : Node) (types : Option (List TypeRef)) :
    R.Tracks m (info R.host handle b n types) Memory.Any := by
  cases n with
  | deferred body => exact hs.handler m (.info b body types) hb
  | dynamic body => exact hs.handler m (.info b body types) hb
  | path base steps =>
    refine (target_tracks hs hb base steps).bind fun t m₁ h₁ _ => .ite (.pure_any _) ?_
    exact (selected_tracks hs (hb.mono h₁.kinds) _).bind fun property m₂ _ _ =>
      (describeMethod_tracks _ _ types).map _ fun _ _ _ _ => trivial
  | name name =>
    exact (methodNamed_tracks hs hb name).bind fun x m₁ _ hx => Regime.methodExpr_info_tracks hs hx
  | choice condition yes no =>
    exact (branch_tracks hs hb condition yes no).bind fun chosen m₁ h₁ _ =>
      hs.handler m₁ (.info b chosen types) (hb.mono h₁.kinds)
  | sequence first second =>
    exact (handler_eval hs hb first).bind fun _ m₁ h₁ _ =>
      hs.handler m₁ (.info b second types) (hb.mono h₁.kinds)
  | _ => exact .fail _

theorem step_tracks {t : Task α} (ht : t.Grounded m) :
    R.Tracks m (step R.host handle t) t.Yields := by
  cases t with
  | eval b n => exact eval_tracks hs ht n
  | assign b n v => exact assign_tracks hs ht.1 n ht.2
  | typeOf b n => exact typeOf_tracks hs ht n
  | readOnly b n => exact readOnly_tracks hs ht n
  | invoke b n types args => exact invoke_tracks hs ht.1 n types ht.2
  | info b n types => exact info_tracks hs ht n types

end Step

/-- Every run only writes to cells as known. -/
theorem run_tracks (hconforms : R.host.Conforms R.guarded) (depth : Nat) :
    R.Handles (run R.host depth) := by
  induction depth with
  | zero => exact fun _ _ _ _ _ _ _ => trivial
  | succ depth ih => exact fun m t ht => step_tracks ⟨hconforms, ih⟩ ht

end ExprLang.Evaluation
