import ExprLang.Proofs.Builtin.Table
import ExprLang.Proofs.Evaluation.Capture
import ExprLang.Proofs.Evaluation.Respect
import ExprLang.Proofs.Factory
import ExprLang.Proofs.Lexer.Unfold

/-! An expression that was built in one context does in every later one what its tree does there with
all the functions and variables of the first. -/

namespace ExprLang

variable {host : Host} {classes : Array HostClass}

/-- A host with the builtin classes and its own ones, whose own methods and resolvers do not see what
lambdas were built with. -/
structure Host.Discreet (host : Host) (classes : Array HostClass) : Prop where
  classes_eq : host.classes = .ofHost classes
  methods : ∀ c ∈ classes, ∀ m, m ∈ c.members.methods ∨ m ∈ c.members.constructors →
    m.Blind host.classes
  resolvers {α : Type} (i : Nat) {r : α → α → Prop} {q q' : Request α} :
    Request.Alike host.classes r q q' →
      Action.Sim host.classes r (host.custom i q) (host.custom i q')

theorem Host.Discreet.blind (h : host.Discreet classes) : host.Blind where
  methods m hm := by
    rw [h.classes_eq] at hm
    exact ClassTable.declared_blind h.methods m hm
  resolvers := h.resolvers

/-- Reading, writing and asking about one expression ends like the same with another one. -/
structure ValueExpr.ActsLike (host : Host) (depth : Nat) (e e' : ValueExpr) (w : World) : Prop where
  read : Outcome.Alike host.classes (Value.Alike host.classes)
    (e.read host (Evaluation.run host depth) w) (e'.read host (Evaluation.run host depth) w)
  readAs (type : TypeRef) : Outcome.Alike host.classes (Value.Alike host.classes)
    (e.readAs host (Evaluation.run host depth) type w)
    (e'.readAs host (Evaluation.run host depth) type w)
  write (v : Value) : Outcome.Alike host.classes Eq
    (e.write (Evaluation.run host depth) v w) (e'.write (Evaluation.run host depth) v w)
  isReadOnly : Outcome.Alike host.classes Eq
    (e.isReadOnly (Evaluation.run host depth) w) (e'.isReadOnly (Evaluation.run host depth) w)
  type? : Outcome.Alike host.classes Eq
    (e.type? (Evaluation.run host depth) w) (e'.type? (Evaluation.run host depth) w)

namespace Evaluation

/-- Expressions that are alike act alike, at every depth and in every world. -/
theorem acts_of_alike (hb : host.Blind) {e e' : ValueExpr}
    (he : ValueExpr.Alike host.classes e e') (depth : Nat) (w : World) :
    ValueExpr.ActsLike host depth e e' w := by
  have hf : Faithful host (run host depth) := ⟨hb, run_respects hb depth⟩
  have hw := World.Alike.refl host.classes w
  exact
    { read := read_sim hf he w w hw
      readAs := fun type => readAs_sim hf he type w w hw
      write := fun v => write_sim hf he (.same v) w w hw
      isReadOnly := isReadOnly_sim hf he w w hw
      type? := type?_sim hf he w w hw }

/-- Whatever is done, in whatever world, with an expression that was built in a context ends as it does
with the tree of its text and all the functions and variables of that context. -/
theorem built_acts_as_parsed (hd : host.Discreet classes) {f : Factory} (hf : f.Reached)
    {c : Context} {text : String} {expected : Option TypeRef} {e : ValueExpr}
    (h : (Factory.valueExpression host.classes c text expected f).1 = .ok e) :
    ∃ n, parseTemplate text = .ok n ∧ ∀ (depth : Nat) (w : World),
      ValueExpr.ActsLike host depth e (.parsed text n c.bound expected) w := by
  obtain ⟨n, b, hn, hb, rfl⟩ := Factory.valueExpression_spec hf h
  exact ⟨n, hn, fun depth w =>
    acts_of_alike hd.blind (.parsed text expected (Bound.capture_agree hb)) depth w⟩

theorem discreet_bare : Host.bare.Discreet #[] where
  classes_eq := rfl
  methods c hc := (Array.not_mem_empty c hc).elim
  resolvers _ _ _ _ hq := .pure hq.neutral

theorem parse_variable : parseTemplate "$\x7bx\x7d" = .ok (.name "x") := by
  have hx : Lexer.next 2 ['x', '\x7d'] = .found ⟨.name "x", ⟨2, 3⟩⟩ ['\x7d'] := rfl
  have hbrace : Lexer.next 3 ['\x7d'] = .found ⟨.symbol .rBrace, ⟨3, 4⟩⟩ [] := rfl
  have hstop : Lexer.segmentFrom 3 0 ['\x7d'] = .ok ⟨[], 3, []⟩ := Lexer.segmentFrom_found hbrace
  have hs : Lexer.segmentFrom 2 0 ['x', '\x7d'] = .ok ⟨[⟨.name "x", ⟨2, 3⟩⟩], 3, []⟩ := by
    simp [Lexer.segmentFrom_found hx, hstop]
  have hparts : Template.partsFrom 0 [] ['$', '\x7b', 'x', '\x7d'] = .ok [.dynamic (.name "x")] := by
    rw [Template.partsFrom_opening rfl hs, Template.partsFrom]
    rfl
  have htext : "$\x7bx\x7d".toList = ['$', '\x7b', 'x', '\x7d'] := rfl
  rw [parseTemplate, htext, hparts]
  rfl

/-- A context in which `x` is bound to a value, and more is in sight. -/
def variablesInSight : Context :=
  { Context.standard false false with
    vars := [("x", .literal (.bool true) none), ("y", .literal .null none)] }

theorem variable_acts_as_parsed :
    ∃ n, parseTemplate "$\x7bx\x7d" = .ok n ∧ ∀ (depth : Nat) (w : World),
      ValueExpr.ActsLike Host.bare depth
        (.parsed "$\x7bx\x7d" (.name "x") (.mk [] [("x", .literal (.bool true) none)]) none)
        (.parsed "$\x7bx\x7d" n variablesInSight.bound none) w := by
  refine built_acts_as_parsed discreet_bare (.start 8) ?_
  simp only [Factory.valueExpression, bind, ExceptT.bind, ExceptT.mk, StateT.bind,
    ExceptT.bindCont, Factory.parse, parse_variable]
  rfl

end Evaluation

end ExprLang
