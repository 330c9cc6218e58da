import ExprLang.Builtin.Table
import ExprLang.HostCode.Accessor
import ExprLang.Proofs.Evaluation.Simulation

/-! No method of a builtin class sees the bindings of lambdas. -/

namespace ExprLang

variable {α β : Type} {t : ClassTable}

/-! ## Arguments -/

namespace Builtin
variable (h : Heap)

theorem argument_bare (args : List Value) (i : Nat) :
    argument (args.map Value.bare) i = Value.bare <$> argument args i := by
  simp only [argument, List.getElem?_map]
  cases args[i]? <;> rfl

theorem bare_mismatch (wanted : String) (v : Value) :
    (mismatch h.bare wanted v : Except Failure α) = mismatch h wanted v := by
  simp only [mismatch, Heap.bare_typeName]

@[simp] theorem bare_asText (v : Value) : asText h.bare v = asText h v := by
  simp only [asText, bare_mismatch]

@[simp] theorem asText_bare (v : Value) : asText h v.bare = asText h v := by
  cases v <;> rfl

@[simp] theorem bare_asWord (v : Value) : asWord h.bare v = asWord h v := by
  simp only [asWord, bare_mismatch]

@[simp] theorem asWord_bare (v : Value) : asWord h v.bare = asWord h v := by
  cases v <;> rfl

@[simp] theorem bare_asDouble (v : Value) : asDouble h.bare v = asDouble h v := by
  simp only [asDouble, bare_asWord]

@[simp] theorem asDouble_bare (v : Value) : asDouble h v.bare = asDouble h v := by
  cases v <;> rfl

@[simp] theorem bare_asBig (v : Value) : asBig h.bare v = asBig h v := by
  simp only [asBig, Coercion.bare_toTarget]

@[simp] theorem asBig_bare (v : Value) : asBig h v.bare = asBig h v := by
  simp only [asBig, Coercion.toTarget_bare]

@[simp] theorem bare_asDecimal (v : Value) : asDecimal h.bare v = asDecimal h v := by
  simp only [asDecimal, Coercion.bare_toTarget]

@[simp] theorem asDecimal_bare (v : Value) : asDecimal h v.bare = asDecimal h v := by
  simp only [asDecimal, Coercion.toTarget_bare]

@[simp] theorem bare_asIndex (v : Value) : asIndex h.bare v = asIndex h v := by
  simp only [asIndex, bare_asWord]

@[simp] theorem asIndex_bare (v : Value) : asIndex h v.bare = asIndex h v := by
  simp only [asIndex, asWord_bare]

@[simp] theorem bare_asInstant (v : Value) : asInstant h.bare v = asInstant h v := by
  simp only [asInstant, bare_mismatch]

@[simp] theorem asInstant_bare (v : Value) : asInstant h v.bare = asInstant h v := by
  cases v <;> rfl

@[simp] theorem bare_asClass (v : Value) : asClass h.bare v = asClass h v := by
  simp only [asClass, bare_mismatch]

@[simp] theorem asClass_bare (v : Value) : asClass h v.bare = asClass h v := by
  cases v <;> rfl

@[simp] theorem bare_readInteger (bits : Nat) (v : Value) :
    readInteger h.bare bits v = readInteger h bits v := by
  simp only [readInteger, bare_asText]

@[simp] theorem readInteger_bare (bits : Nat) (v : Value) :
    readInteger h bits v.bare = readInteger h bits v := by
  simp only [readInteger, asText_bare]

@[simp] theorem bare_readFloating (f : FloatFormat) (v : Value) :
    readFloating f h.bare v = readFloating f h v := by
  simp only [readFloating, bare_asText]

@[simp] theorem readFloating_bare (f : FloatFormat) (v : Value) :
    readFloating f h v.bare = readFloating f h v := by
  simp only [readFloating, asText_bare]

end Builtin

/-! ## Relating results -/

namespace Builtin

variable {h k : Heap} {v w : Value} {vs ws : List Value}

theorem argument_alike (hvs : List.Forall₂ (Value.Alike t) vs ws) (i : Nat) :
    ExceptRel (Value.Alike t) (argument vs i) (argument ws i) := by
  have hi := getElem?_of_forall₂ hvs i
  simp only [argument]
  generalize vs[i]? = x at hi
  generalize ws[i]? = y at hi
  cases hi with
  | some hv => exact .ok hv
  | none => exact .error _

theorem mismatch_alike {r : α → β → Prop} (hh : Heap.Alike t h k) (hv : Value.Alike t v w)
    (wanted : String) : ExceptRel r (mismatch h wanted v) (mismatch k wanted w) := by
  simp only [mismatch, hh.typeName hv]
  exact .error _

theorem asItems_alike (hh : Heap.Alike t h k) (hv : Value.Alike t v w) :
    ExceptRel (List.Forall₂ (Value.Alike t)) (asItems h v) (asItems k w) := by
  cases hv with
  | lambda hb hc => exact mismatch_alike hh (.lambda hb hc) _
  | same =>
    cases v with
    | list a => exact .ok (hh.items a)
    | set a => exact .ok (hh.items a)
    | _ => exact mismatch_alike hh (.same _) _

theorem asEntries_alike (hh : Heap.Alike t h k) (hv : Value.Alike t v w) :
    ExceptRel (List.Forall₂ (Value.AlikePair t)) (asEntries h v) (asEntries k w) := by
  cases hv with
  | lambda hb hc => exact mismatch_alike hh (.lambda hb hc) _
  | same =>
    cases v with
    | map a => exact .ok (hh.entries a)
    | _ => exact mismatch_alike hh (.same _) _

/-- A word read on both sides is the same. -/
theorem asIndex_alike (hh : Heap.Alike t h k) (hv : Value.Alike t v w) :
    ExceptRel Eq (asIndex h v) (asIndex k w) :=
  .of_eq (hh.observe hv bare_asIndex asIndex_bare)

end Builtin

/-! ## Declarations -/

theorem HostCode.Alike.look {f g : Heap → Except Failure Value}
    (h : ∀ h k, Heap.Alike t h k → ExceptRel (Value.Alike t) (f h) (g k)) :
    HostCode.Alike t (.look f) (.look g) :=
  .read fun _ _ hh => .finish (h _ _ hh)

theorem HostCode.Alike.change {f g : Heap → Except Failure (Value × Heap)}
    (h : ∀ h k, Heap.Alike t h k →
      ExceptRel (fun a b => Value.Alike t a.1 b.1 ∧ Heap.Alike t a.2 b.2) (f h) (g k)) :
    HostCode.Alike t (.change f) (.change g) := by
  refine .read fun h' k' hh => ?_
  have hr := h h' k' hh
  generalize f h' = x at hr
  generalize g k' = y at hr
  cases hr with
  | ok hab => exact .write hab.2 (.finish (.ok hab.1))
  | error e => exact .finish (.error e)

theorem HostCode.Alike.conclude {r s : Except Fault Value} (h : ExceptRel (Value.Alike t) r s) :
    HostCode.Alike t (.conclude r) (.conclude s) := by
  cases h with
  | ok hab => exact .finish (.ok hab)
  | error e => exact .finish (.error _)

namespace Builtin
variable {name : String} {params : List TypeRef} {returns : TypeRef}

theorem query_blind {f : Heap → Value → List Value → Except Failure Value}
    (h : ∀ h k v w vs ws, Heap.Alike t h k → Value.Alike t v w →
      List.Forall₂ (Value.Alike t) vs ws → ExceptRel (Value.Alike t) (f h v vs) (f k w ws)) :
    (query name params returns f).Blind t := by
  rintro code ⟨⟩ v w vs ws hv hvs
  exact .look fun h' k' hh => h h' k' v w vs ws hh hv hvs

theorem command_blind {f : Heap → Value → List Value → Except Failure (Value × Heap)}
    (h : ∀ h k v w vs ws, Heap.Alike t h k → Value.Alike t v w →
      List.Forall₂ (Value.Alike t) vs ws →
      ExceptRel (fun a b => Value.Alike t a.1 b.1 ∧ Heap.Alike t a.2 b.2) (f h v vs) (f k w ws)) :
    (command name params returns f).Blind t := by
  rintro code ⟨⟩ v w vs ws hv hvs
  exact .change fun h' k' hh => h h' k' v w vs ws hh hv hvs

theorem function_blind {f : Heap → List Value → Except Failure Value}
    (h : ∀ h k vs ws, Heap.Alike t h k → List.Forall₂ (Value.Alike t) vs ws →
      ExceptRel (Value.Alike t) (f h vs) (f k ws)) :
    (function name params returns f).Blind t := by
  rintro code ⟨⟩ v w vs ws hv hvs
  exact .look fun h' k' hh => h h' k' vs ws hh hvs

theorem constructor_blind {f : Heap → List Value → Except Failure Value}
    (h : ∀ h k vs ws, Heap.Alike t h k → List.Forall₂ (Value.Alike t) vs ws →
      ExceptRel (Value.Alike t) (f h vs) (f k ws)) : (constructor params f).Blind t := by
  rintro code ⟨⟩ v w vs ws hv hvs
  exact .look fun h' k' hh => h h' k' vs ws hh hvs

/-- What only looks at bare values gives the same value in both heaps. -/
theorem observed {f : Heap → List Value → Except Failure Value}
    (hf : ∀ h vs, f h.bare (vs.map Value.bare) = f h vs) (h k : Heap) (vs ws : List Value)
    (hh : Heap.Alike t h k) (hvs : List.Forall₂ (Value.Alike t) vs ws) :
    ExceptRel (Value.Alike t) (f h vs) (f k ws) :=
  .alike_of_eq (by rw [← hf h, ← hf k, hh.bare_eq, Value.Alike.map_bare_eq hvs])

theorem query_blind_of_bare {f : Heap → Value → List Value → Except Failure Value}
    (hf : ∀ h v vs, f h.bare v.bare (vs.map Value.bare) = f h v vs) :
    (query name params returns f).Blind t :=
  query_blind fun h k v w vs ws hh hv hvs =>
    .alike_of_eq (by rw [← hf h, ← hf k, hh.bare_eq, hv.bare_eq, Value.Alike.map_bare_eq hvs])

theorem function_blind_of_bare {f : Heap → List Value → Except Failure Value}
    (hf : ∀ h vs, f h.bare (vs.map Value.bare) = f h vs) :
    (function name params returns f).Blind t :=
  function_blind (observed hf)

theorem constructor_blind_of_bare {f : Heap → List Value → Except Failure Value}
    (hf : ∀ h vs, f h.bare (vs.map Value.bare) = f h vs) : (constructor params f).Blind t :=
  constructor_blind (observed hf)

theorem first_alike (h k : Heap) (vs ws : List Value) (_ : Heap.Alike t h k)
    (hvs : List.Forall₂ (Value.Alike t) vs ws) :
    ExceptRel (Value.Alike t) (first h vs) (first k ws) :=
  argument_alike hvs 0

end Builtin

end ExprLang

/-! ## Accessors of objects

The code that methods of host classes often consist of does not see what lambdas were built
with. -/

namespace ExprLang.HostCode.Alike

variable {t : ClassTable} {v w : Value} {vs ws : List Value}

theorem succeed (hv : Value.Alike t v w) : HostCode.Alike t (.succeed v) (.succeed w) :=
  .finish (.ok hv)

/-- Objects that are alike have the same class, name and order, and fields that are alike. -/
theorem object? {h k : Heap} (hh : Heap.Alike t h k) (a : Address) :
    Option.Rel (fun o p => Cell.Alike t (.object o) (.object p)) (h.object? a) (k.object? a) := by
  have hc := hh.cell a
  simp only [Heap.object?]
  generalize h.cells[a]? = x at hc
  generalize k.cells[a]? = y at hc
  rcases hc with ⟨⟨hv⟩ | ⟨he⟩ | ⟨hv⟩ | ⟨ho⟩⟩ | _
  · exact .none
  · exact .none
  · exact .none
  · exact .some (.object ho)
  · exact .none

theorem withObject (hv : Value.Alike t v w) {f g : Heap → Address → HostObject → HostCode}
    (hfg : ∀ h k a o p, Heap.Alike t h k → Cell.Alike t (.object o) (.object p) →
      HostCode.Alike t (f h a o) (g k a p)) :
    HostCode.Alike t (HostCode.withObject v f) (HostCode.withObject w g) := by
  have refused : HostCode.Alike t (.fail "no receiver") (.fail "no receiver") :=
    .finish (.error _)
  refine .read fun h k hh => ?_
  cases hv with
  | lambda _ _ => exact refused
  | same =>
    cases v with
    | object a =>
      have ho := object? hh a
      dsimp only
      generalize h.object? a = x at ho
      generalize k.object? a = y at ho
      cases ho with
      | some ho => exact hfg _ _ a _ _ hh ho
      | none => exact refused
    | _ => exact refused

theorem getField (name : String) (hv : Value.Alike t v w) :
    HostCode.Alike t (HostCode.getField name v) (HostCode.getField name w) := by
  refine withObject hv fun h k a o p _ ho => succeed ?_
  cases ho with
  | object hfields => exact getD_alike (hfields.find? name)

theorem setField (name : String) (hv : Value.Alike t v w) {x y : Value}
    (hx : Value.Alike t x y) :
    HostCode.Alike t (HostCode.setField name v x) (HostCode.setField name w y) := by
  refine withObject hv fun h k a o p hh ho => ?_
  cases ho with
  | object hfields => exact .write (hh.put a (.object (hfields.insert name hx))) (succeed (.same _))

theorem echo (word : String) (hvs : List.Forall₂ (Value.Alike t) vs ws) :
    HostCode.Alike t (HostCode.echo word vs) (HostCode.echo word ws) := by
  refine .read fun h k hh => ?_
  have hshown : vs.map (fun v => h.typeName v ++ ":" ++ h.display v) =
      ws.map fun w => k.typeName w ++ ":" ++ k.display w :=
    map_eq_of_forall₂ (fun _ _ hv => by rw [hh.typeName hv, hh.display hv]) hvs
  rw [hshown]
  exact succeed (.same _)

theorem callFirst (hvs : List.Forall₂ (Value.Alike t) vs ws) :
    HostCode.Alike t (HostCode.callFirst vs) (HostCode.callFirst ws) := by
  cases hvs with
  | nil => exact .finish (.error _)
  | @cons v w _ _ hv hrest =>
    cases hv with
    | lambda hb hc => exact .call (.lambda hb hc) hrest fun _ _ hr => conclude hr
    | same =>
      cases v with
      | lambda f => exact .call (.same _) hrest fun _ _ hr => conclude hr
      | _ => exact .finish (.error _)

theorem construct (owner : ClassId) (id : String) (fields : List String)
    (hvs : List.Forall₂ (Value.Alike t) vs ws) :
    HostCode.Alike t (HostCode.construct owner id fields vs)
      (HostCode.construct owner id fields ws) :=
  .change fun _ _ hh => .ok (hh.newCell (.object (.insertAll hvs _ .nil)) .object)

theorem query (text : String) : HostCode.Alike t (HostCode.query text) (HostCode.query text) := by
  refine .typeOf text fun r => ?_
  cases r with
  | error f => exact .finish (.error _)
  | ok type =>
    refine .readOnly text fun r => ?_
    cases r with
    | error f => exact .finish (.error _)
    | ok b =>
      refine .change fun h k hh => .ok ?_
      rw [hh.lineage]
      exact hh.newList (Value.Alike.refl_all _)

end ExprLang.HostCode.Alike
