import ExprLang.Proofs.Builtin.Effects
import ExprLang.Proofs.Evaluation.Conforming

/-! The methods of the builtin classes only write to cells as known. -/

namespace ExprLang

variable {g : CellKind → Bool} {m : Memory} {vs : List Value} {self : Value}

theorem Heap.Source.knows {v : Value} (h : m.heap.Source self vs v) (hself : m.Knows self)
    (hvs : m.KnowsAll vs) : m.Knows v := by
  cases h with
  | atom h => exact Value.grounded_of_isAtom h
  | receiver => exact hself
  | argument h => exact hvs v h
  | item a h => exact m.grounded.items a v h
  | entry a h => exact (m.grounded.entries a _ h).2

theorem Heap.Effect.reached {r : Value × Heap} (h : m.heap.Effect self vs r) (hself : m.Knows self)
    (hvs : m.KnowsAll vs) :
    ∃ m', m.Reaches g m' ∧ m'.heap = { m.heap with cells := r.2.cells } ∧ m'.Knows r.1 := by
  cases h with
  | nothing h => exact ⟨m, .refl, rfl, Value.grounded_of_isAtom h⟩
  | @item a v ha hv =>
    subst ha
    have hitems : m.KnowsAll (m.heap.items a ++ [v]) := List.forall_mem_append.mpr
      ⟨m.grounded.items a, List.forall_mem_singleton.mpr (hvs v hv)⟩
    obtain ⟨m', hc, hh⟩ := m.putItems_reached hself.has hitems
    exact ⟨m', .single hc, hh, Value.grounded_of_isAtom rfl⟩
  | member ha hv habsent =>
    subst ha
    obtain ⟨m', hc, hh⟩ := m.addMember_reached hself.has (hvs _ hv) habsent
    exact ⟨m', .single hc, hh, Value.grounded_of_isAtom rfl⟩
  | @entry a key v ha hkey hv =>
    subst ha
    obtain ⟨m', hc, hh⟩ := m.putEntry_reached hself.has (hvs _ hkey) (hvs _ hv)
    have hfound := Memory.knows_lookup (m.grounded.entries a) m.heap key
    exact ⟨m', .single hc, hh, hfound.mono hc.kinds⟩
  | keys a =>
    have hkeys : ∀ v ∈ (m.heap.entries a).map (·.1), m.Knows v :=
      List.forall_mem_map.mpr fun e he => (m.grounded.entries a e he).1
    obtain ⟨m', hc, hh, hv⟩ := m.newSet_reached hkeys
    exact ⟨m', .single hc, hh, hv⟩
  | values a =>
    have hvalues : ∀ v ∈ (m.heap.entries a).map (·.2), m.Knows v :=
      List.forall_mem_map.mpr fun e he => (m.grounded.entries a e he).2
    obtain ⟨m', hc, hh, hv⟩ := m.newList_reached hvalues
    exact ⟨m', .single hc, hh, hv⟩

theorem Builtin.invokeLambda_conforms (hself : m.Knows self) (hvs : m.KnowsAll vs) :
    (invokeLambda self vs).Conforms g m := by
  show (HostCode.Conforms g _ m)
  cases self <;> try exact mismatch_in _ _ _
  next f =>
  refine ⟨hself.closure, ?_, fun r m' _ hr => ResultIn.mapError_iff.mpr hr⟩
  split
  · next a _ => exact m.grounded.array_items a
  · exact hvs

theorem HostCode.change_conforms {f : Heap → Except Failure (Value × Heap)}
    (h : ResultIn (fun r => ∃ m', m.Reaches g m' ∧ m'.heap = { m.heap with cells := r.2.cells } ∧
      m'.Knows r.1) (f m.heap)) : (HostCode.change f).Conforms g m := by
  rw [HostCode.change, HostCode.Conforms]
  cases hr : f m.heap with
  | ok r =>
    obtain ⟨m', hm, hh, hv⟩ := h r hr
    exact ⟨m', hm, hh, ResultIn.ok_iff.mpr hv⟩
  | error e => exact ResultIn.error

theorem Declaration.Sourced.conforms {d : Declaration} (h : d.Sourced) : d.Conforms g := by
  intro code hcode m self vs hself hvs
  cases h with
  | look f hbody hf =>
    cases hbody.symm.trans hcode
    exact (hf self vs m.heap).imp fun v hv => hv.knows hself hvs
  | change f hbody hf =>
    cases hbody.symm.trans hcode
    exact HostCode.change_conforms ((hf self vs m.heap).imp fun r hr => hr.reached hself hvs)
  | invoke hbody =>
    cases hbody.symm.trans hcode
    exact Builtin.invokeLambda_conforms hself hvs

/-- The methods and constructors of a class conform. -/
def HostClass.Conforms (guarded : CellKind → Bool) (c : HostClass) : Prop :=
  ∀ m, m ∈ c.members.methods ∨ m ∈ c.members.constructors → m.Conforms guarded

/-- The methods of the builtin classes conform, so all do where those of the host do. -/
theorem Host.conforms_ofHost {g : CellKind → Bool} {classes : Array HostClass}
    {custom : Nat → {α : Type} → Request α → Action α} (h : ∀ c ∈ classes, c.Conforms g) :
    Host.Conforms g ⟨.ofHost classes, custom⟩ := fun _ hm =>
  ClassTable.forall_declared (fun b d hd => (b.methods_sourced d hd).conforms)
    (fun b d hd => (b.constructors_sourced d hd).conforms) h hm

/-- So are all constants where the host has no classes. -/
theorem Host.bare_fields (k : Kinds) (c : ClassId) :
    ∀ f ∈ (Host.bare.classes.members c).fields, f.value.Grounded k := by
  intro f hf
  cases c with
  | builtin b => exact Value.grounded_of_isAtom (b.fields_atom f hf)
  | host n => cases hf

end ExprLang
