import ExprLang.Proofs.Evaluation.ReadBack
import ExprLang.Proofs.Evaluation.Target

/-! What the queries about a target say of an assignment to it. A target that is read-only refuses every
value, one that is not takes what can be converted to its type, unless code of the host says otherwise. -/

namespace ExprLang.Evaluation

open Resolution (Refused RaisedByWriter isCollection)

variable {host : Host} {handle : Handler} {ro : Bool} {depth d : Nat} {b : Bound} {n : Node}
  {v base k : Value} {w u u' : World} {e : Fault} {t : Denoted}

namespace Denoted

/-- The base of a property is not null. -/
def Based : Denoted → Prop
  | property base _ => base ≠ .null
  | _ => True

/-- What is read-only refuses every value. -/
theorem write_refused (ht : t.Based) (hw : w.Plain ro)
    (h : t.isReadOnly host handle w = .value true u) :
    w.Unmoved u ∧ Refused (t.write host handle v) w := by
  cases t with
  | argument x =>
    cases h
    exact ⟨.refl w, .fail _ w⟩
  | literal x =>
    cases h
    exact ⟨.refl w, _, w, rfl, .refl w⟩
  | name x => cases Resolution.readOnly_name hw h
  | property base k => exact Resolution.write_refused ht hw h
  | callResult =>
    cases h
    exact ⟨.refl w, .fail _ w⟩
  | other x =>
    cases h
    exact ⟨.refl w, .fail _ w⟩

/-- That what is not read-only cannot be written is said by the code of a writer at most. -/
theorem write_fault (ht : t.Based) (hw : w.Plain ro)
    (h : t.isReadOnly host handle w = .value false u)
    (hfault : t.write host handle v w = .fault e u') :
    e.kind ≠ .propertyNotWritable ∨
      ∃ base k, t = .property base k ∧ RaisedByWriter host handle w.heap base k e := by
  cases t with
  | name x =>
    obtain ⟨u, hset, -⟩ := Resolution.set_name host handle v x hw
    cases hset.symm.trans hfault
  | property base k =>
    exact (Resolution.write_fault ht hw h hfault).imp_right fun hraised => ⟨base, k, rfl, hraised⟩
  | argument | literal | callResult | other => cases h

end Denoted

theorem denote_based {r : Nat × Denoted} (h : denote host depth b n w = .value r u) : r.2.Based := by
  obtain ⟨d, t⟩ := r
  cases t with
  | property base k => exact denote_nonnull h
  | argument | literal | name | callResult | other => trivial

section Predictions
variable (hchain : w.context.layout = .standard [] ro) (hquiet : w.context.listeners = [])
include hchain hquiet

theorem denote_plain {r : Nat × Denoted} (h : denote host depth b n w = .value r u) : u.Plain ro :=
  ((denote_steady (Host.steady_standard host ro) depth b n).frame hchain (.self w) h).plain hchain hquiet

/-- An assignment ends as the write to what the tree denotes does. -/
theorem assign_paired {r : Nat × Denoted} (h : denote host depth b n w = .value r u) (v : Value) :
    Outcome.Paired (World.Twin w.context) (r.2.write host (run host r.1) v u)
      (run host depth (.assign b n v) w) := by
  rw [← Action.bind_value h (f := fun d => d.2.write host (run host d.1) v)]
  exact assign_denoted (Host.steady_standard host ro) hchain hquiet v (.self w)

variable (hspine : Unsequenced w.context.isArgument b n)
include hspine

theorem readOnly_value {r : Bool} (h : run host depth (.readOnly b n) w = .value r u) :
    ∃ d u₀, denote host depth b n w = .value d u₀ ∧ d.2.Based ∧ u₀.Plain ro ∧
      d.2.isReadOnly host (run host d.1) u₀ = .value r u := by
  rw [readOnly_denoted (Host.steady_standard host ro) hchain hspine (.self w)] at h
  obtain ⟨d, u₀, hdenote, hanswer⟩ := Action.bind_eq_value.mp h
  exact ⟨d, u₀, hdenote, denote_based hdenote, denote_plain hchain hquiet hdenote, hanswer⟩

/-- Where a target is read-only, an assignment fails, and leaves the values as the query does. -/
theorem assign_refused (h : run host depth (.readOnly b n) w = .value true u) (v : Value) :
    ∃ e u', run host depth (.assign b n v) w = .fault e u' ∧ u'.heap = u.heap ∧
      u'.context.stores = u.context.stores := by
  obtain ⟨d, u₀, hdenote, hbased, hplain, hanswer⟩ := readOnly_value hchain hquiet hspine h
  obtain ⟨hu, e, u₁, hwrite, hu₁⟩ := Denoted.write_refused (v := v) hbased hplain hanswer
  have hpair := assign_paired hchain hquiet hdenote v
  rw [hwrite] at hpair
  generalize hassign : run host depth (.assign b n v) w = o at hpair
  cases hpair with
  | @fault _ _ u' htwin =>
    refine ⟨e, u', rfl, ?_, ?_⟩
    · rw [htwin.heap, hu₁.heap, hu.heap]
    · rw [htwin.context, hu₁.stores, hu.stores]

/-- Where a target is not read-only, only code of the host says that it cannot be written. -/
theorem assign_fault (h : run host depth (.readOnly b n) w = .value false u)
    (hfault : run host depth (.assign b n v) w = .fault e u')
    (hkind : e.kind = .propertyNotWritable) :
    ∃ d base k u₀, denote host depth b n w = .value (d, .property base k) u₀ ∧
      RaisedByWriter host (run host d) u₀.heap base k e := by
  obtain ⟨⟨d, t⟩, u₀, hdenote, hbased, hplain, hanswer⟩ := readOnly_value hchain hquiet hspine h
  have hpair := assign_paired hchain hquiet hdenote v
  rw [hfault] at hpair
  generalize hwrite : t.write host (run host d) v u₀ = o at hpair
  cases hpair with
  | fault e hu =>
    obtain hne | ⟨base, k, rfl, hraised⟩ := Denoted.write_fault hbased hplain hanswer hwrite
    · exact absurd hkind hne
    · exact ⟨d, base, k, u₀, hdenote, hraised⟩

/-- Where a target is an item of a collection, exactly the values are taken that its type takes. -/
theorem assign_item_iff {t : TypeRef}
    (hdenote : denote host depth b n w = .value (d, .property base k) u)
    (hbase : isCollection base = true)
    (htype : run host depth (.typeOf b n) w = .value (some t) u') :
    (∃ u', run host depth (.assign b n v) w = .value () u') ↔
      (v.isNull = true ∧ t.isPrimitive = false) ∨ ∃ x, Coercion.toType u'.heap t v = .ok x := by
  have hplain := denote_plain hchain hquiet hdenote
  rw [typeOf_denoted (Host.steady_standard host ro) hchain hspine (.self w) hdenote] at htype
  rw [← Resolution.write_collection hplain hbase htype]
  have hpair := assign_paired hchain hquiet hdenote v
  generalize hwrite : Denoted.write host (run host d) v (.property base k) u = o,
    hassign : run host depth (.assign b n v) w = o' at hpair
  have hwrite : Resolution.write host (run host d) base k v u = o := hwrite
  rw [hwrite]
  cases hpair <;> simp

end Predictions

end ExprLang.Evaluation
