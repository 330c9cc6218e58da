import ExprLang.Proofs.Resolution.Rerun

/-! Expressions that call nothing and store nothing. Evaluated again, they do again what they did. -/

namespace ExprLang

/-! ## Trees without effects -/

/-- The node itself calls nothing and stores nothing. -/
def Node.isQuiet : Node → Bool
  | .assign _ _ => false
  | .call _ _ _ => false
  | .lambda _ _ calls => calls.isEmpty
  | .path _ steps => !steps.any (·.isCall)
  | _ => true

/-- Nothing in the tree calls or stores. -/
def Node.isPure (n : Node) : Bool := n.parts.all Node.isQuiet

/-- The tree of the expression is pure, and so are all variables that it was built with. -/
inductive ValueExpr.Pure : ValueExpr → Prop
  | parsed {text : String} {n : Node} {b : Bound} {expected : Option TypeRef}
      (hn : n.isPure = true) (hb : ∀ e ∈ b.vars, e.2.Pure) : Pure (.parsed text n b expected)
  | literal {v : Value} {expected : Option TypeRef} : Pure (.literal v expected)

/-- All variables are known, and pure. -/
structure Bound.Pure (k : Kinds) (b : Bound) : Prop where
  grounded : b.Grounded k
  vars : ∀ e ∈ b.vars, e.2.Pure

theorem Bound.Pure.expression? {k : Kinds} {b : Bound} {name : String} {e : ValueExpr} (hb : b.Pure k)
    (he : b.expression? name = some e) : e.Grounded k ∧ e.Pure :=
  ⟨hb.grounded.expression? he, hb.vars (name, e) (Bindings.mem_of_find? he)⟩

/-! ## Steps of the evaluator -/

namespace Rerun

/-- What a step of the evaluator relies on: getters repeat what they do, and so does the evaluation of
pure trees inside. -/
structure Ready (s : Rerun) (host : Host) (handle : Handler) : Prop where
  standing : s.Standing host
  getters (m : Method) : host.classes.Getter m → m.Repeatable s host handle
  handler {b : Bound} {t : Node} (n : Nat) : b.Pure s.memory.kinds → t.isPure = true →
    s.Repeats false n (handle (.eval b t)) (handle (.eval b t)) s.Same

end Rerun

namespace Evaluation

open Rerun (Repeats Agree Lasting lasting_same same_of_isAtom)

variable {s : Rerun} {host : Host} {handle : Handler} {n : Nat} {b : Bound}

theorem read_repeats (hs : s.Ready host handle) {e : ValueExpr}
    (hg : e.Grounded s.memory.kinds) (he : e.Pure) :
    s.Repeats false n (e.read host handle) (e.read host handle) s.Same := by
  obtain ⟨readOnly, hl⟩ := hs.standing.layout
  have converted {n : Nat} {v w : Value} (hv : s.Same n v w) (t : Option TypeRef) :
      s.Repeats false n (Conversion.convertTo? host v t) (Conversion.convertTo? host w t) s.Same := by
    cases t with
    | none => exact .pure_same hv
    | some t => exact .convert hl hv t
  cases he with
  | parsed hn hb =>
    refine .bracketed hs.standing.listeners _ lasting_same ?_
    exact (hs.handler n ⟨hg.parsed, hb⟩ hn).bind fun m v w _ hv => converted hv _
  | literal =>
    refine (Repeats.pure_known hg.literal).bind fun m v w _ hv => converted hv _

section Step

variable (hs : s.Ready host handle) (hb : b.Pure s.memory.kinds)
include hs hb

/-! ## Operators -/

theorem truth_repeats {t : Node} (ht : t.isPure = true) :
    s.Repeats false n (truth handle b t) (truth handle b t) Agree := by
  refine (hs.handler n hb ht).bind fun m v w _ hv => .heap_bind fun g h htwins _ => ?_
  rw [hv.eq]
  exact .ofExcept_agree (htwins.resembles v).toBool

theorem bool_repeats {t : Node} (ht : t.isPure = true) :
    s.Repeats false n (Value.bool <$> truth handle b t) (Value.bool <$> truth handle b t) s.Same :=
  (truth_repeats hs hb ht).map_atom fun _ => rfl

theorem unary_repeats (op : UnaryOp) {t : Node} (ht : t.isPure = true) :
    s.Repeats false n (unary handle b op t) (unary handle b op t) s.Same := by
  refine (hs.handler n hb ht).bind fun m v w _ hv => .heap_bind fun g h htwins _ => ?_
  have hr := htwins.resembles v
  rw [hv.eq]
  cases op with
  | neg => exact .ofExcept_atom hr.neg (Arithmetic.neg_atom g v)
  | not => exact .ofExcept_atom (congrArg _ hr.toBool) (ResultIn.map_iff.mpr fun _ _ => rfl)
  | empty =>
    rw [htwins.renames.isEmpty]
    exact .pure_same (same_of_isAtom rfl)

theorem strict_repeats (op : BinaryOp) {left right : Node} (hleft : left.isPure = true)
    (hright : right.isPure = true) :
    let x := do
      let v ← handle (.eval b left)
      let w ← handle (.eval b right)
      Action.ofExcept (applyStrict (← Action.heap) op v w)
    s.Repeats false n x x s.Same := by
  refine (hs.handler n hb hleft).bind fun _ v v' _ hv =>
    (hs.handler _ hb hright).bind fun _ w w' _ hw => .heap_bind fun g h htwins _ => ?_
  rw [hv.eq, hw.eq]
  exact .ofExcept_atom ((htwins.compares v w).applyStrict op) (applyStrict_atom g op v w)

theorem binary_repeats (op : BinaryOp) {left right : Node} (hleft : left.isPure = true)
    (hright : right.isPure = true) :
    s.Repeats false n (binary handle b op left right) (binary handle b op left right) s.Same := by
  cases op with
  | and =>
    refine (truth_repeats hs hb hleft).bind ?_
    rintro _ _ holds _ rfl
    exact .ite (bool_repeats hs hb hright) (.pure_same (same_of_isAtom rfl))
  | or =>
    refine (truth_repeats hs hb hleft).bind ?_
    rintro _ _ holds _ rfl
    exact .ite (.pure_same (same_of_isAtom rfl)) (bool_repeats hs hb hright)
  | elvis =>
    refine (hs.handler n hb hleft).bind fun m v w _ hv => .heap_bind fun g h htwins hg => ?_
    rw [hv.eq]
    refine (Repeats.ofExcept_agree (htwins.resembles v).toBool).bind ?_
    rintro k _ holds hk rfl
    exact .ite (.pure_same ⟨hv.below.mono (hg.trans hk), rfl⟩) (hs.handler _ hb hright)
  | coalesce =>
    refine (hs.handler n hb hleft).bind fun m v w _ hv => ?_
    rw [hv.isNull]
    exact .ite (hs.handler _ hb hright) (.pure_same hv)
  | _ => exact strict_repeats hs hb _ hleft hright

theorem branch_repeats {condition : Node} (hc : condition.isPure = true) (yes no : Node) :
    s.Repeats false n (branch handle b condition yes no) (branch handle b condition yes no)
      fun _ t t' => t' = t ∧ (t = yes ∨ t = no) := by
  refine (truth_repeats hs hb hc).bind ?_
  rintro _ _ holds _ rfl
  exact .ite (.pure fun _ _ => ⟨rfl, .inl rfl⟩) (.pure fun _ _ => ⟨rfl, .inr rfl⟩)

/-! ## Names -/

theorem findValue_repeats (name : String) :
    s.Repeats false n (findValue host handle b name) (findValue host handle b name)
      fun n => Option.Rel (s.Same n) := by
  have lasting : Lasting fun n => Option.Rel (s.Same n) := by
    rintro m n _ _ hn (hv | _)
    · exact .some (hv.mono hn)
    · exact .none
  refine .context_bind fun c c' => ?_
  rw [Context.argument?_flagged, Context.argument?_flagged]
  cases hv : s.context.argument? name with
  | some v =>
    exact (Repeats.pure_known (hs.standing.context.argument? hv)).map some lasting
      fun _ _ _ hv => .some hv
  | none =>
    cases he : b.expression? name with
    | some e =>
      obtain ⟨hg, hpure⟩ := hb.expression? he
      exact (read_repeats hs hg hpure).map some lasting fun _ _ _ hv => .some hv
    | none =>
      refine Resolution.resolve_bind hs.standing (same_of_isAtom rfl) (same_of_isAtom rfl) hs.getters
        fun m v w _ hv => Repeats.isResolved.bind ?_
      rintro k _ claimed hk rfl
      exact .ite (.pure fun l hl => .some (hv.mono (hk.trans hl))) (.pure fun _ _ => .none)

theorem nameValue_repeats (name : String) :
    s.Repeats false n (nameValue host handle b name) (nameValue host handle b name) s.Same := by
  refine (findValue_repeats hs hb name).bind ?_
  rintro m _ _ _ (hv | _)
  · exact .pure_same hv
  · refine .context_bind fun c c' => ?_
    simp only [Context.imports_flagged]
    split
    · exact Resolution.get_repeats hs.standing (same_of_isAtom rfl) (same_of_isAtom rfl) hs.getters
    · exact .pure_same (same_of_isAtom rfl)
    · exact .fail _

/-! ## Paths -/

theorem selected_repeats {t : Selector} (ht : (partsOfSelector t).all Node.isQuiet = true) :
    s.Repeats false n (selected handle b t) (selected handle b t) s.Same := by
  cases t with
  | field name => exact .pure_same (same_of_isAtom rfl)
  | index t => exact hs.handler n hb ht

theorem walk_repeats {v w : Value} (hv : s.Same n v w) {steps : List Step}
    (hcalls : steps.any (·.isCall) = false)
    (hparts : (partsOfSteps steps).all Node.isQuiet = true) :
    s.Repeats false n (walk host handle b v steps) (walk host handle b w steps) s.Same := by
  induction steps generalizing n v w with
  | nil => exact .pure_same hv
  | cons t ts ih =>
    obtain ⟨selector, args⟩ := t
    simp only [List.any_cons, Bool.or_eq_false_iff] at hcalls
    obtain rfl : args = none := Option.not_isSome_iff_eq_none.mp (Bool.eq_false_iff.mp hcalls.1)
    simp only [partsOfSteps, partsOfStep, List.all_append, Bool.and_eq_true] at hparts
    rw [walk, walk, hv.isNull]
    refine .ite (.pure_same (same_of_isAtom rfl)) (Repeats.bind (p := s.Same) ?_ ?_)
    · refine (selected_repeats hs hb hparts.1.1).bind fun m p q hm hp => ?_
      dsimp only [Step.args?]
      rw [hp.isNull]
      exact .ite (.pure_same (same_of_isAtom rfl))
        (Resolution.get_repeats hs.standing (hv.mono hm) hp hs.getters)
    · exact fun m v w _ hv => ih hv hcalls.2 hparts.2

/-! ## Parts -/

theorem evalAll_repeats {ts : List Node} (hts : (partsOfAll ts).all Node.isQuiet = true) :
    s.Repeats false n (evalAll handle b ts) (evalAll handle b ts) s.SameAll := by
  induction ts generalizing n with
  | nil => exact .pure fun _ _ => .nil
  | cons t ts ih =>
    simp only [partsOfAll, List.all_append, Bool.and_eq_true] at hts
    exact (hs.handler n hb hts.1).bind fun m v w _ hv => (ih hts.2).bind fun k vs ws hk hvs =>
      .pure fun l hl => .cons (hv.mono (hk.trans hl)) (hvs.mono hl)

theorem evalEntries_repeats {es : List (Node × Node)}
    (hes : (partsOfEntries es).all Node.isQuiet = true) :
    s.Repeats false n (evalEntries handle b es) (evalEntries handle b es) s.SameEntries := by
  induction es generalizing n with
  | nil => exact .pure fun _ _ => .nil
  | cons e es ih =>
    simp only [partsOfEntries, List.all_append, Bool.and_eq_true] at hes
    refine (hs.handler n hb hes.1.1).bind fun m key key' _ hkey =>
      (hs.handler m hb hes.1.2).bind fun k v w hk hv => (ih hes.2).bind fun l vs ws hl hvs =>
      .pure fun i hi => .cons (hkey.mono ?_) (hv.mono ?_) (hvs.mono hi)
    · omega
    · omega

theorem joinParts_repeats {ts : List Node} (hts : (partsOfAll ts).all Node.isQuiet = true) :
    s.Repeats false n (joinParts handle b ts) (joinParts handle b ts) Agree := by
  induction ts generalizing n with
  | nil => exact .pure_agree _
  | cons t ts ih =>
    simp only [partsOfAll, List.all_append, Bool.and_eq_true] at hts
    refine (hs.handler n hb hts.1).bind fun m v w _ hv => .heap_bind fun g h htwins _ => ?_
    rw [hv.eq, (htwins.resembles v).toText]
    refine (ih hts.2).bind ?_
    rintro _ _ rest _ rfl
    exact .pure_agree _

theorem eval_repeats {t : Node} (ht : t.isPure = true) :
    s.Repeats false n (eval host handle b t) (eval host handle b t) s.Same := by
  have atom {v : Value} (hv : v.isAtom = true) : s.Repeats false n (pure v) (pure v) s.Same :=
    .pure_same (same_of_isAtom hv)
  cases t <;> simp only [Node.isPure, Node.parts, Node.isQuiet, List.all_cons, List.all_append,
    Bool.and_eq_true, Bool.not_eq_true', Bool.true_and, Bool.false_and, Bool.false_eq_true] at ht
  case plain text => exact atom rfl
  case template parts => exact (joinParts_repeats hs hb ht).map_atom fun _ => rfl
  case deferred body => exact hs.handler n hb ht
  case dynamic body => exact hs.handler n hb ht
  case null => exact atom rfl
  case boolean t => exact atom rfl
  case integer text => exact .ofExcept_atom rfl (integerLiteral_atom text)
  case floating text => exact .ofExcept_atom rfl (floatingLiteral_atom text)
  case text content => exact atom rfl
  case name name => exact nameValue_repeats hs hb name
  case path base steps =>
    exact (hs.handler n hb ht.2.1).bind fun m v w _ hv => walk_repeats hs hb hv ht.1 ht.2.2
  case lambda params body calls =>
    obtain rfl := List.isEmpty_iff.mp ht.1
    refine .context_bind fun c c' => ?_
    exact .pure_known (Value.grounded_lambda
      (Closure.grounded_mk hb.grounded hs.standing.context.arguments))
  case unary op operand => exact unary_repeats hs hb op ht
  case binary op left right => exact binary_repeats hs hb op ht.1 ht.2
  case choice condition yes no =>
    refine (branch_repeats hs hb ht.1.1 yes no).bind ?_
    rintro m _ chosen _ ⟨rfl, rfl | rfl⟩
    · exact hs.handler m hb ht.1.2
    · exact hs.handler m hb ht.2
  case sequence first second =>
    exact (hs.handler n hb ht.1).bind fun m _ _ _ _ => hs.handler m hb ht.2
  case list items =>
    exact (evalAll_repeats hs hb ht).bind fun m vs ws _ hvs => .build fun g h htwins hg =>
      Rerun.made_list htwins hg hvs
  case set items =>
    exact (evalAll_repeats hs hb ht).bind fun m vs ws _ hvs => .build fun g h htwins hg =>
      Rerun.made_set htwins hg hvs
  case map entries =>
    exact (evalEntries_repeats hs hb ht).bind fun m es ds _ hes => .build fun g h htwins hg =>
      Rerun.made_map htwins hg hes

end Step

/-! ## Runs -/

theorem run_repeats (hs : s.Standing host)
    (hg : ∀ depth m, host.classes.Getter m → m.Repeatable s host (run host depth)) (depth : Nat)
    (hb : b.Pure s.memory.kinds) {t : Node} (ht : t.isPure = true) :
    s.Repeats false n (run host depth (.eval b t)) (run host depth (.eval b t)) s.Same := by
  induction depth generalizing n b t with
  | zero => exact fun _ _ _ _ => .exhausted
  | succ depth ih => exact eval_repeats ⟨hs, hg depth, fun n hb ht => ih hb ht⟩ hb ht

end Evaluation

end ExprLang
