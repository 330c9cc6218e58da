import ExprLang.Proofs.Heap.Finite
import ExprLang.Proofs.Value.Resemblance

/-! Heaps with the same cells at other addresses. Nothing that is read from a value depends on where its
cells lie. -/

namespace ExprLang

variable {f : Address → Address} {g h : Heap} {m n : Nat} {v w : Value}

/-- The address of the cell that the value names. -/
def Value.address? : Value → Option Address
  | .list a | .set a | .map a | .array a | .object a => some a
  | _ => none

/-- The value with its cell at another address. What lambdas and method expressions carry stays. -/
def Value.rename (f : Address → Address) : Value → Value
  | .list a => .list (f a)
  | .set a => .set (f a)
  | .map a => .map (f a)
  | .array a => .array (f a)
  | .object a => .object (f a)
  | v => v

def renameEntry (f : Address → Address) (e : Value × Value) : Value × Value :=
  (e.1.rename f, e.2.rename f)

def HostObject.rename (f : Address → Address) (o : HostObject) : HostObject :=
  { o with fields := o.fields.map fun e => (e.1, e.2.rename f) }

/-- A cell with all values in it renamed. -/
def Cell.rename (f : Address → Address) : Cell → Cell
  | .items vs => .items (vs.map (Value.rename f))
  | .entries es => .entries (es.map (renameEntry f))
  | .array c vs => .array c (vs.map (Value.rename f))
  | .object o => .object (o.rename f)

/-- Every cell of the first heap lies in the second one at another address, with its values renamed. -/
structure Heap.Renames (f : Address → Address) (g h : Heap) : Prop where
  lineage : h.lineage = g.lineage
  injective : Function.Injective f
  cell (a : Address) : h.cells[f a]? = g.cells[a]?.map (Cell.rename f)

namespace Value

@[simp] theorem rename_list (f : Address → Address) (a : Address) :
    (list a).rename f = list (f a) := rfl

@[simp] theorem rename_set (f : Address → Address) (a : Address) :
    (set a).rename f = set (f a) := rfl

@[simp] theorem rename_map (f : Address → Address) (a : Address) :
    (map a).rename f = map (f a) := rfl

@[simp] theorem rename_array (f : Address → Address) (a : Address) :
    (array a).rename f = array (f a) := rfl

@[simp] theorem rename_object (f : Address → Address) (a : Address) :
    (object a).rename f = object (f a) := rfl

theorem rename_of_address (h : ∀ a, v.address? = some a → f a = a) : v.rename f = v := by
  cases v with
  | list a => exact congrArg list (h a rfl)
  | set a => exact congrArg set (h a rfl)
  | map a => exact congrArg map (h a rfl)
  | array a => exact congrArg array (h a rfl)
  | object a => exact congrArg object (h a rfl)
  | _ => rfl

/-- What is found at the address of an object. -/
def ofObject? {α : Type} (v : Value) (found : Address → Option α) : Option α :=
  match v with
  | .object a => found a
  | _ => none

theorem ofObject?_rename {α : Type} (v : Value) (f : Address → Address) (found : Address → Option α) :
    (v.rename f).ofObject? found = v.ofObject? fun a => found (f a) := by
  cases v <;> rfl

theorem rename_or (f : Address → Address) (v : Value) :
    v.rename f = v ∨ v.isAtom = false ∧ (v.rename f).isAtom = false := by
  cases v <;> first | exact .inl rfl | exact .inr ⟨rfl, rfl⟩

end Value

namespace Heap.Renames

variable (hh : Renames f g h)
include hh

theorem beq (a b : Address) : (f a == f b) = (a == b) := by
  rw [Bool.eq_iff_iff, beq_iff_eq, beq_iff_eq, hh.injective.eq_iff]

theorem items (a : Address) : h.items (f a) = (g.items a).map (Value.rename f) := by
  simp only [Heap.items, hh.cell]
  rcases g.cells[a]? with _ | (_ | _ | _ | _) <;> rfl

theorem entries (a : Address) : h.entries (f a) = (g.entries a).map (renameEntry f) := by
  simp only [Heap.entries, hh.cell]
  rcases g.cells[a]? with _ | (_ | _ | _ | _) <;> rfl

theorem array (a : Address) :
    h.array (f a) = ((g.array a).1, (g.array a).2.map (Value.rename f)) := by
  simp only [Heap.array, hh.cell]
  rcases g.cells[a]? with _ | (_ | _ | _ | _) <;> rfl

theorem object? (a : Address) : h.object? (f a) = (g.object? a).map (HostObject.rename f) := by
  simp only [Heap.object?, hh.cell]
  rcases g.cells[a]? with _ | (_ | _ | _ | _) <;> rfl

theorem owner (a : Address) : h.owner (f a) = g.owner a := by
  simp only [Heap.owner, hh.object?]
  cases g.object? a <;> rfl

theorem typeOf? (v : Value) : h.typeOf? (v.rename f) = g.typeOf? v := by
  cases v <;> simp only [Value.rename, Heap.typeOf?, hh.array, hh.owner]

theorem classOf? (v : Value) : h.classOf? (v.rename f) = g.classOf? v := by
  cases v <;> simp only [Value.rename, Heap.classOf?, hh.owner]

theorem isEmpty (v : Value) : Comparison.isEmpty h (v.rename f) = Comparison.isEmpty g v := by
  cases v <;> simp only [Value.rename, Comparison.isEmpty, hh.items, hh.entries, hh.array,
    List.isEmpty_map]

/-! ## Text and equality to a depth -/

theorem displayAt (n : Nat) (v : Value) : h.displayAt n (v.rename f) = g.displayAt n v := by
  induction n generalizing v with
  | zero => rfl
  | succ n ih =>
    have hmap (vs : List Value) :
        (vs.map (Value.rename f)).map (h.displayAt n) = vs.map (g.displayAt n) := by
      simp only [List.map_map, Function.comp_def, ih]
    cases v with
    | list a | set a => exact congrArg (bracketed "[" "]") ((congrArg _ (hh.items a)).trans (hmap _))
    | array a =>
      exact congrArg (bracketed "[" "]") ((congrArg (List.map _ ·.2) (hh.array a)).trans (hmap _))
    | map a =>
      refine congrArg (bracketed "\x7b" "\x7d") ((congrArg (List.map _) (hh.entries a)).trans ?_)
      simp only [List.map_map, Function.comp_def, renameEntry, ih]
    | object a =>
      simp only [Value.rename_object, Heap.displayAt, hh.object?, hh.owner, hh.lineage]
      cases g.object? a <;> rfl
    | cls c => exact congrArg ("class " ++ ·.name c) hh.lineage
    | _ => rfl

theorem equalAt (n : Nat) (v w : Value) :
    h.equalAt n (v.rename f) (w.rename f) = g.equalAt n v w := by
  induction n generalizing v w with
  | zero => rfl
  | succ n ih =>
    have hpair (vs ws : List Value) := pairwise_map (Value.rename f) (h.equalAt n) (g.equalAt n) ih vs ws
    cases v <;> cases w <;> try rfl
    case list.list a b => simp only [Value.rename_list, Heap.equalAt, hh.beq, hh.items, hpair]
    case set.set a b =>
      simp only [Value.rename_set, Heap.equalAt, hh.beq, hh.items, List.length_map, List.all_map,
        List.any_map, Function.comp_def, ih]
    case map.map a b =>
      simp only [Value.rename_map, Heap.equalAt, hh.beq, hh.entries, List.length_map, List.all_map,
        List.any_map, Function.comp_def, renameEntry, ih]
    case array.array a b => simp only [Value.rename_array, Heap.equalAt, hh.beq, hh.array, hpair]
    case object.object a b => exact hh.beq a b

/-! ## Objects -/

theorem equals (o : HostObject) (a : Address) (v : Value) :
    (o.rename f).equals h (f a) (v.rename f) = o.equals g a v := by
  cases v with
  | object b =>
    simp only [HostObject.equals, HostObject.rename, Value.rename_object, hh.beq, hh.object?,
      Option.bind_map]
    rfl
  | list b =>
    simp only [HostObject.equals, HostObject.rename, Value.rename_list, hh.items, List.length_map]
  | _ => rfl

theorem compare? (o : HostObject) (v : Value) :
    (o.rename f).compare? h (v.rename f) = o.compare? g v := by
  cases v with
  | object b =>
    simp only [HostObject.compare?, Value.rename_object, hh.object?, Option.bind_eq_bind,
      Option.bind_map]
    rfl
  | _ => rfl

theorem objectEquals (v w : Value) :
    Comparison.objectEquals h (v.rename f) (w.rename f) = Comparison.objectEquals g v w := by
  have hside (v u : Value) :
      ((v.rename f).ofObject? fun a => (h.object? a).map fun o => o.equals h a (u.rename f)) =
        v.ofObject? fun a => (g.object? a).map fun o => o.equals g a u := by
    refine (v.ofObject?_rename f _).trans (congrArg v.ofObject? (funext fun a => ?_))
    rw [hh.object?, Option.map_map]
    exact congrArg (Option.map · _) (funext fun o => hh.equals o a u)
  exact congrArg₂ (fun x y => (Option.or x y).getD false) (hside v w) (hside w v)

theorem objectOrder? (v w : Value) :
    Comparison.objectOrder? h (v.rename f) (w.rename f) = Comparison.objectOrder? g v w := by
  have hside (v u : Value) :
      ((v.rename f).ofObject? fun a => (h.object? a).bind fun o => o.compare? h (u.rename f)) =
        v.ofObject? fun a => (g.object? a).bind fun o => o.compare? g u := by
    refine (v.ofObject?_rename f _).trans (congrArg v.ofObject? (funext fun a => ?_))
    rw [hh.object?, Option.bind_map]
    exact congrArg (Option.bind _) (funext fun o => hh.compare? o u)
  exact congrArg₂ (fun x y => Option.or x (Option.map Ordering.swap y)) (hside v w) (hside w v)

end Heap.Renames

/-! ## Any depth -/

namespace Heap

/-- Reading deeper than a value nests shows no more of it. -/
theorem displayAt_of_nests (hv : h.Nests m v) (hmn : m ≤ n) : h.displayAt n v = h.displayAt m v := by
  induction m generalizing n v with
  | zero => cases hv
  | succ m ih =>
    obtain ⟨n, rfl⟩ := Nat.exists_eq_add_of_le' (Nat.lt_of_lt_of_le m.succ_pos hmn)
    have hmap (vs : List Value) (hvs : ∀ w ∈ vs, h.Nests m w) :
        vs.map (h.displayAt n) = vs.map (h.displayAt m) :=
      List.map_congr_left fun w hw => ih (hvs w hw) (Nat.le_of_succ_le_succ hmn)
    cases v with
    | list a | set a => exact congrArg (bracketed "[" "]") (hmap (h.items a) hv)
    | array a => exact congrArg (bracketed "[" "]") (hmap (h.array a).2 hv)
    | map a =>
      refine congrArg (bracketed "\x7b" "\x7d") (List.map_congr_left fun e he => ?_)
      rw [ih (hv.entry he).1 (Nat.le_of_succ_le_succ hmn),
        ih (hv.entry he).2 (Nat.le_of_succ_le_succ hmn)]
    | _ => rfl

theorem equalAt_of_nests_le (hv : h.Nests m v) (hmn : m ≤ n) :
    h.equalAt n v w = h.equalAt m v w :=
  Bool.eq_iff_iff.mpr ⟨(equalAt_of_nests hv).1, equalAt_mono hmn⟩

end Heap

namespace Heap.Renames

variable (hh : Renames f g h) (hsize : g.cells.size ≤ h.cells.size)
include hh hsize

/-- A value is read alike in both heaps, where they have as many cells or it comes to an end. -/
theorem resembles (hv : h.cells.size = g.cells.size ∨ g.Nests (g.cells.size + 1) v) :
    g.Resembles h v (v.rename f) where
  lineage := hh.lineage
  atom := v.rename_or f
  typeOf? := hh.typeOf? v
  display := by
    rw [Heap.display, Heap.display, hh.displayAt]
    rcases hv with heq | hnests
    · rw [heq]
    · exact displayAt_of_nests hnests (Nat.succ_le_succ hsize)

theorem compares (hv : h.cells.size = g.cells.size ∨ g.Nests (g.cells.size + 1) v)
    (hw : h.cells.size = g.cells.size ∨ g.Nests (g.cells.size + 1) w) :
    g.Compares h v w (v.rename f) (w.rename f) where
  left := hh.resembles hsize hv
  right := hh.resembles hsize hw
  equal := by
    rw [Heap.equal, Heap.equal, hh.equalAt]
    rcases hv with heq | hnests
    · rw [heq]
    · exact equalAt_of_nests_le hnests (Nat.succ_le_succ hsize)
  objectEquals := hh.objectEquals v w
  objectOrder? := hh.objectOrder? v w

end Heap.Renames

end ExprLang
