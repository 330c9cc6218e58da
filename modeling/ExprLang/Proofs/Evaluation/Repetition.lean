import ExprLang.Proofs.Builtin.Conforming
import ExprLang.Proofs.Builtin.Getters
import ExprLang.Proofs.Evaluation.Pure

/-! Pure expressions leave no trace, and evaluated again they do again what they did. -/

namespace ExprLang

variable {s : Rerun} {R : Regime} {m : Memory} {w u : World} {classes : Array HostClass}

/-- A getter that changes no cell that is there, and does the same again once there are more cells: it
ends as before, up to where its own new cells are. -/
def Method.Pure (host : Host) (m : Method) : Prop :=
  ∀ s : Rerun, s.Standing host → ∀ depth, m.Repeatable s host (Evaluation.run host depth)

/-- The getters of builtin classes repeat what they do, so all do where those of the host are pure. -/
theorem Rerun.Standing.getters {host : Host} (hs : s.Standing host)
    (hc : host.classes = .ofHost classes)
    (hpure : ∀ c ∈ classes, ∀ f ∈ c.members.methods, host.classes.Getter f → f.Pure host)
    (depth : Nat) {f : Method} (hf : host.classes.Getter f) :
    f.Repeatable s host (Evaluation.run host depth) := by
  obtain ⟨c, hdeclared, hparams⟩ := hf.declared
  rw [hc] at hdeclared
  rcases ClassTable.members_cases classes c with ⟨b, hb⟩ | ⟨k, hk, hb⟩ | hb <;> rw [hb] at hdeclared
  · exact (b.methods_replay _ (ClassTable.mem_of_mem_place hdeclared)).repeatable hparams
  · exact hpure k hk f hdeclared hf s hs depth
  · exact absurd hdeclared List.not_mem_nil

/-! ## Two runs, one after the other -/

/-- The outcomes are the same, but for where cells lie. -/
inductive Outcome.Renames (f : Address → Address) : Outcome Value → Outcome Value → Prop
  | value {v : Value} {w u : World} (hh : w.heap.Renames f u.heap) :
      Renames f (.value v w) (.value (v.rename f) u)
  | fault {e : Fault} {w u : World} (hh : w.heap.Renames f u.heap) : Renames f (.fault e w) (.fault e u)

theorem Outcome.Renames.of_value {f : Address → Address} {v v' : Value}
    (h : Outcome.Renames f (.value v w) (.value v' u)) : v' = v.rename f ∧ w.heap.Renames f u.heap := by
  cases h with
  | value hh => exact ⟨rfl, hh⟩

/-- The second world has the names and the cells of the first one, and perhaps more cells. -/
structure World.Grown (w u : World) : Prop where
  context : u.context = w.context.flagged u.context.resolved
  lineage : u.heap.lineage = w.heap.lineage
  size : w.heap.cells.size ≤ u.heap.cells.size
  cells (a : Address) : a < w.heap.cells.size → u.heap.cells[a]? = w.heap.cells[a]?

theorem Rerun.Outcomes.grown_of_final {o : Outcome Value} {r : Nat → Value → Value → Prop} {n : Nat}
    (h : Rerun.Outcomes ⟨m, w.context, 0⟩ false n r o o) (hw : w.heap = m.heap)
    (hu : o.final? = some u) : w.Grown u := by
  have hworlds : ∃ u', Rerun.Worlds ⟨m, w.context, 0⟩ false u u' := by
    cases h with
    | value hw' | fault hw' =>
      cases hu
      exact ⟨_, hw'⟩
    | exhausted => cases hu
  obtain ⟨u', hworlds⟩ := hworlds
  have ht := hworlds.heaps
  refine ⟨hworlds.first, ?_, ?_, ?_⟩ <;> rw [hw]
  · exact ht.lineage
  · exact ht.grown
  · exact ht.old

theorem World.Grown.worlds (hg : w.Grown u) (hw : w.heap = m.heap)
    (hends : u.heap.cells.size = w.heap.cells.size ∨ w.heap.Untangled) :
    Rerun.Worlds ⟨m, w.context, u.heap.cells.size - w.heap.cells.size⟩ false w u where
  first := rfl
  second := hg.context
  flags := nofun
  heaps := by
    have hsize := hg.size
    have hlineage := hg.lineage
    have hcells := hg.cells
    rw [hw] at hsize hlineage hcells hends ⊢
    refine Memory.twins_of_kept hlineage hcells (Nat.add_sub_cancel' hsize).symm ?_
    exact hends.imp_left fun h => by rw [h, Nat.sub_self]

namespace Evaluation

/-- Reads a coordinate. -/
def coordinateReader : Declaration where
  name := "x"
  body := some fun self _ => .getField "x" self

/-- A record with a coordinate. -/
def coordinateClass : HostClass where
  shape := ⟨"Point", .record, some (.builtin .object), [], none⟩
  members := .declare (.host 0) [coordinateReader] [] [] [⟨"x", .primitive .long⟩]

def coordinateHost : Host := ⟨.ofHost #[coordinateClass], fun _ {_} q => pure q.neutral⟩

/-- A point and the list `[1]`. -/
def coordinateMemory : Memory where
  kinds := [.object (.host 0), .list]
  heap := ⟨coordinateHost.classes.lineage,
    #[.object ⟨.host 0, "p1", none, [("x", .long 7)]⟩, .items [.long 1]]⟩
  grounded := .cons (.object (o := ⟨.host 0, "p1", none, [("x", .long 7)]⟩)
    (List.forall_mem_singleton.mpr (Value.grounded_of_isAtom rfl)))
    (.cons (.list (List.forall_mem_singleton.mpr (Value.grounded_of_isAtom rfl))) .nil)

def coordinateWorld : World where
  heap := coordinateMemory.heap
  context := { Context.standard false false with stores := #[[("p", .object 0), ("l", .list 1)]] }
  log := []

/-- The expression `[p.x, l]`. -/
def coordinatePair : ValueExpr :=
  .parsed "$\x7b[p.x, l]\x7d" (.list [.path (.name "p") [.mk (.field "x") none], .name "l"]) .empty none

theorem coordinateWorld_standing :
    Regime.Standing ⟨coordinateHost, false, fun _ => true⟩ coordinateMemory coordinateWorld where
  heap := rfl
  layout := rfl
  context := by
    refine ⟨nofun, fun i => ?_, nofun⟩
    cases i with
    | zero =>
      refine List.forall_mem_cons.mpr ⟨?_, List.forall_mem_singleton.mpr (Value.grounded_list rfl)⟩
      rintro u ⟨⟩
      exact ⟨_, rfl⟩
    | succ i => exact nofun
  fields c := by
    intro f hf
    rcases ClassTable.members_cases #[coordinateClass] c with ⟨b, hb⟩ | ⟨k, hk, hb⟩ | hb <;>
      rw [show coordinateHost.classes.members c = _ from hb] at hf
    · exact Value.grounded_of_isAtom (b.fields_atom f hf)
    · rw [List.mem_singleton.mp (Array.mem_toList_iff.mpr hk)] at hf
      exact absurd hf List.not_mem_nil
    · exact absurd hf List.not_mem_nil

theorem coordinateWorld_untangled : coordinateWorld.heap.Untangled := by
  refine Heap.untangled_of_rank (fun _ => 0) fun a b ⟨w, hw, hb⟩ => ?_
  match a with
  | 0 => cases hw
  | 1 =>
    rw [List.mem_singleton.mp hw] at hb
    cases hb
  | a + 2 => cases hw

theorem coordinateReader_pure :
    ∀ c ∈ #[coordinateClass], ∀ f ∈ c.members.methods, coordinateHost.classes.Getter f →
      f.Pure coordinateHost := by
  intro c hc f hf _ s _ depth
  rw [List.mem_singleton.mp (Array.mem_toList_iff.mpr hc)] at hf
  rw [List.mem_singleton.mp hf]
  exact Method.repeatable_of_getField rfl

/-- The list that a run comes to, and the world after it. -/
def Outcome.list? : Outcome Value → Option (Address × World)
  | .value (.list a) w => some (a, w)
  | _ => none

theorem Outcome.eq_of_list? {o : Outcome Value} {a : Address} (h : list? o = some (a, w)) :
    o = .value (.list a) w := by
  unfold list? at h
  split at h
  · cases h
    rfl
  · cases h

end Evaluation

end ExprLang
