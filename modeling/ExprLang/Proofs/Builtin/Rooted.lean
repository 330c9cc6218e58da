import ExprLang.Proofs.Builtin.Effects
import ExprLang.Proofs.Evaluation.Agreeing

/-! The builtin classes bring no lambdas and no expressions of their own, so all stays rooted where the
classes and resolvers of the host bring only such as are rooted. -/

namespace ExprLang

variable {O : Origin} {h : Heap} {self : Value} {args : List Value}

theorem Heap.Source.rooted {v : Value} (hv : h.Source self args v) (hh : h.Rooted O)
    (hself : self.Rooted O) (hargs : ∀ v ∈ args, v.Rooted O) : v.Rooted O := by
  cases hv with
  | atom hv => exact Value.rooted_of_isAtom hv
  | receiver => exact hself
  | argument hv => exact hargs v hv
  | item a hv => exact hh.items a v hv
  | entry a he => exact (hh.entries a _ he).2

theorem Heap.Effect.rooted {r : Value × Heap} (hr : h.Effect self args r) (hh : h.Rooted O)
    (hargs : ∀ v ∈ args, v.Rooted O) : r.1.Rooted O ∧ r.2.Rooted O := by
  have added (a : Address) {v : Value} (hv : v ∈ args) : ∀ w ∈ h.items a ++ [v], w.Rooted O :=
    List.forall_mem_append.mpr ⟨hh.items a, List.forall_mem_singleton.mpr (hargs v hv)⟩
  cases hr with
  | nothing hv => exact ⟨Value.rooted_of_isAtom hv, hh⟩
  | @item a v _ hv => exact ⟨Value.rooted_of_isAtom rfl, hh.put a (added a hv)⟩
  | @member a v _ hv _ => exact ⟨Value.rooted_of_isAtom rfl, hh.put a (added a hv)⟩
  | @entry a key v _ hkey hv =>
    exact ⟨h.rooted_lookup (hh.entries a) key,
      hh.put a (h.forall_mem_putEntry (hh.entries a) (hargs key hkey) (hargs v hv))⟩
  | keys a => exact hh.newSet (List.forall_mem_map.mpr fun e he => (hh.entries a e he).1)
  | values a => exact hh.newList (List.forall_mem_map.mpr fun e he => (hh.entries a e he).2)

theorem Builtin.invokeLambda_preserves (hself : self.Rooted O) (hargs : ∀ v ∈ args, v.Rooted O) :
    (invokeLambda self args).Preserves O := by
  intro k hk
  cases self with
  | lambda f =>
    refine ⟨hself.closure, ?_, fun r hr => ResultIn.mapError_iff.mpr hr⟩
    split
    · exact hk.array _
    · exact hargs
  | _ => exact mismatch_in _ _ _

theorem Declaration.Sourced.preserves {d : Declaration} (h : d.Sourced) : d.Preserves O := by
  intro code hcode self args hself hargs
  cases h with
  | look f hbody hf =>
    cases hbody.symm.trans hcode
    exact fun k hk => (hf self args k).imp fun v hv => hv.rooted hk hself hargs
  | change f hbody hf =>
    cases hbody.symm.trans hcode
    intro k hk
    have hresult := hf self args k
    dsimp only
    cases hr : f self args k with
    | ok r =>
      obtain ⟨hv, hwritten⟩ := (hresult r hr).rooted hk hargs
      exact ⟨hwritten, ResultIn.ok_iff.mpr hv⟩
    | error e => exact ResultIn.error
  | invoke hbody =>
    cases hbody.symm.trans hcode
    exact Builtin.invokeLambda_preserves hself hargs

/-! ## Hosts -/

/-- The code and the constants of a class bring only lambdas and expressions that are rooted. -/
structure HostClass.Preserves (O : Origin) (c : HostClass) : Prop where
  methods (m : Method) : m ∈ c.members.methods ∨ m ∈ c.members.constructors → m.Preserves O
  fields : ∀ f ∈ c.members.fields, f.value.Rooted O

/-- A host with the builtin classes and these, which bring only lambdas and expressions that are rooted,
as do its resolvers. -/
structure Host.Careful (O : Origin) (classes : Array HostClass) (host : Host) : Prop where
  classes_eq : host.classes = .ofHost classes
  added : ∀ c ∈ classes, c.Preserves O
  resolvers {α : Type} (i : Nat) (q : Request α) (w : World) : q.Rooted O → w.Rooted O →
    (host.custom i q w).Rooted O (q.Gives O)

/-- The builtin classes make no difference. -/
theorem Host.Careful.preserves {classes : Array HostClass} {host : Host}
    (h : host.Careful O classes) : host.Preserves O where
  methods m hm := by
    rw [h.classes_eq] at hm
    exact ClassTable.forall_declared (fun b d hd => (b.methods_sourced d hd).preserves)
      (fun b d hd => (b.constructors_sourced d hd).preserves)
      (fun c hc m => (h.added c hc).methods m) hm
  fields c f hf := by
    rw [h.classes_eq] at hf
    rcases ClassTable.members_cases classes c with ⟨b, hb⟩ | ⟨k, hk, hb⟩ | hb <;> rw [hb] at hf
    · exact Value.rooted_of_isAtom (b.fields_atom f hf)
    · exact (h.added k hk).fields f hf
    · cases hf
  resolvers := h.resolvers

theorem Host.careful_bare (O : Origin) : Host.bare.Careful O #[] where
  classes_eq := rfl
  added _ hc := (Array.not_mem_empty _ hc).elim
  resolvers _ q _ _ hw := ⟨q.gives_neutral, hw⟩

end ExprLang
