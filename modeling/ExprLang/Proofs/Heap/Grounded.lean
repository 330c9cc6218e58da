import ExprLang.Context
import ExprLang.Proofs.Bindings
import ExprLang.Proofs.Value.Alike
import ExprLang.Proofs.Value.Atom
import Mathlib.Data.List.Forall2

/-! Values that refer to cells as what the cells are. Every cell has a kind that it never changes. -/

namespace ExprLang

/-- What a cell holds. Lists and sets hold items alike. -/
inductive CellKind where
  | list | set | map
  | array (component : TypeRef)
  | object (owner : ClassId)
deriving DecidableEq

/-- The kinds of all cells in order. -/
abbrev Kinds := List CellKind

/-- The cell that the value names is there, and is of its kind. -/
def Kinds.Has (k : Kinds) : Value → Prop
  | .list a => k[a]? = some .list
  | .set a => k[a]? = some .set
  | .map a => k[a]? = some .map
  | .array a => ∃ c, k[a]? = some (.array c)
  | .object a => ∃ c, k[a]? = some (.object c)
  | _ => True

/-! ## Values inside of values -/

mutual

/-- The second value is the first one, or is held by it without a cell between. -/
inductive Value.Mentions : Value → Value → Prop
  | self (v : Value) : Value.Mentions v v
  | lambda {f : Closure} {u : Value} : Closure.Mentions f u → Value.Mentions (.lambda f) u
  | method {m : MethodExpr} {u : Value} : MethodExpr.Mentions m u → Value.Mentions (.method m) u

inductive Closure.Mentions : Closure → Value → Prop
  | bound {ps : List String} {body : Node} {b : Bound} {captured : List (String × Value)}
      {u : Value} : Bound.Mentions b u → Closure.Mentions (.mk ps body b captured) u
  | captured {ps : List String} {body : Node} {b : Bound} {captured : List (String × Value)}
      {u : Value} (e : String × Value) : e ∈ captured → Value.Mentions e.2 u →
      Closure.Mentions (.mk ps body b captured) u

inductive Bound.Mentions : Bound → Value → Prop
  | var {functions : List (String × MethodId)} {vars : List (String × ValueExpr)} {u : Value}
      (e : String × ValueExpr) : e ∈ vars → ValueExpr.Mentions e.2 u →
      Bound.Mentions (.mk functions vars) u

inductive ValueExpr.Mentions : ValueExpr → Value → Prop
  | parsed {text : String} {n : Node} {b : Bound} {expected : Option TypeRef} {u : Value} :
      Bound.Mentions b u → ValueExpr.Mentions (.parsed text n b expected) u
  | literal {v : Value} {expected : Option TypeRef} {u : Value} :
      Value.Mentions v u → ValueExpr.Mentions (.literal v expected) u

inductive MethodExpr.Mentions : MethodExpr → Value → Prop
  | parsed {text : String} {n : Node} {b : Bound} {returns : Option TypeRef}
      {params : Option (List TypeRef)} {u : Value} :
      Bound.Mentions b u → MethodExpr.Mentions (.parsed text n b returns params) u

end

variable {k k' : Kinds}

/-- All cells that the value refers to are there, and are of the kinds that it says. -/
def Value.Grounded (k : Kinds) (v : Value) : Prop := ∀ u, v.Mentions u → k.Has u

def Closure.Grounded (k : Kinds) (f : Closure) : Prop := ∀ u, f.Mentions u → k.Has u

def Bound.Grounded (k : Kinds) (b : Bound) : Prop := ∀ u, b.Mentions u → k.Has u

def ValueExpr.Grounded (k : Kinds) (e : ValueExpr) : Prop := ∀ u, e.Mentions u → k.Has u

def MethodExpr.Grounded (k : Kinds) (m : MethodExpr) : Prop := ∀ u, m.Mentions u → k.Has u

/-- The values of names. -/
def Bindings.Grounded (k : Kinds) (b : Bindings Value) : Prop := ∀ e ∈ b, e.2.Grounded k

/-! ## More cells -/

theorem Kinds.getElem?_of_prefix {a : Address} {s : CellKind} (hk : k <+: k')
    (ha : k[a]? = some s) : k'[a]? = some s := by
  obtain ⟨later, rfl⟩ := hk
  rw [List.getElem?_append_left (List.getElem?_eq_some_iff.mp ha).1, ha]

theorem Kinds.Has.mono {v : Value} (hk : k <+: k') (h : k.Has v) : k'.Has v := by
  cases v with
  | list a | set a | map a => exact getElem?_of_prefix hk h
  | array a | object a =>
    obtain ⟨c, hc⟩ := h
    exact ⟨c, getElem?_of_prefix hk hc⟩
  | _ => trivial

theorem Value.Grounded.mono {v : Value} (h : v.Grounded k) (hk : k <+: k') : v.Grounded k' :=
  fun u hu => (h u hu).mono hk

theorem Bound.Grounded.mono {b : Bound} (h : b.Grounded k) (hk : k <+: k') : b.Grounded k' :=
  fun u hu => (h u hu).mono hk

theorem ValueExpr.Grounded.mono {e : ValueExpr} (h : e.Grounded k) (hk : k <+: k') :
    e.Grounded k' :=
  fun u hu => (h u hu).mono hk

theorem MethodExpr.Grounded.mono {m : MethodExpr} (h : m.Grounded k) (hk : k <+: k') :
    m.Grounded k' :=
  fun u hu => (h u hu).mono hk

theorem Bindings.Grounded.mono {b : Bindings Value} (h : b.Grounded k) (hk : k <+: k') :
    b.Grounded k' :=
  fun e he => (h e he).mono hk

theorem Value.grounded_all_mono {vs : List Value} (h : ∀ v ∈ vs, v.Grounded k) (hk : k <+: k') :
    ∀ v ∈ vs, v.Grounded k' :=
  fun v hv => (h v hv).mono hk

/-! ## What makes up a value -/

theorem Value.grounded_of_isAtom {v : Value} (h : v.isAtom = true) : v.Grounded k := by
  intro u hu
  cases hu with
  | self => cases v <;> trivial
  | lambda => cases h
  | method => cases h

theorem Value.grounded_null : Value.null.Grounded k := grounded_of_isAtom rfl

/-- An item, or null where there is none. -/
theorem Value.grounded_getD {vs : List Value} (h : ∀ v ∈ vs, v.Grounded k) (i : Nat) :
    (vs.getD i .null).Grounded k := by
  rw [List.getD_eq_getElem?_getD]
  cases hv : vs[i]? with
  | none => exact grounded_null
  | some v => exact h v (List.mem_of_getElem? hv)

theorem Value.Grounded.has {v : Value} (h : v.Grounded k) : k.Has v := h v (.self v)

theorem Value.grounded_list {a : Address} (h : k[a]? = some .list) : (Value.list a).Grounded k := by
  rintro u ⟨⟩
  exact h

theorem Value.grounded_set {a : Address} (h : k[a]? = some .set) : (Value.set a).Grounded k := by
  rintro u ⟨⟩
  exact h

theorem Value.grounded_map {a : Address} (h : k[a]? = some .map) : (Value.map a).Grounded k := by
  rintro u ⟨⟩
  exact h

theorem Value.grounded_array {a : Address} {c : TypeRef} (h : k[a]? = some (.array c)) :
    (Value.array a).Grounded k := by
  rintro u ⟨⟩
  exact ⟨c, h⟩

theorem Value.grounded_lambda {f : Closure} (h : f.Grounded k) : (Value.lambda f).Grounded k := by
  intro u hu
  cases hu with
  | self => trivial
  | lambda hu => exact h u hu

theorem Value.Grounded.closure {f : Closure} (h : (Value.lambda f).Grounded k) : f.Grounded k :=
  fun u hu => h u (.lambda hu)

theorem Value.Grounded.method {m : MethodExpr} (h : (Value.method m).Grounded k) : m.Grounded k :=
  fun u hu => h u (.method hu)

theorem Closure.grounded_mk {ps : List String} {body : Node} {b : Bound} {captured : Bindings Value}
    (hb : b.Grounded k) (hc : captured.Grounded k) :
    (Closure.mk ps body b captured).Grounded k := by
  intro u hu
  cases hu with
  | bound hu => exact hb u hu
  | captured e he hu => exact hc e he u hu

theorem Closure.Grounded.bound {f : Closure} (h : f.Grounded k) : f.bound.Grounded k := by
  obtain ⟨ps, body, b, captured⟩ := f
  exact fun u hu => h u (.bound hu)

theorem Closure.Grounded.captured {f : Closure} (h : f.Grounded k) : f.captured.Grounded k := by
  obtain ⟨ps, body, b, captured⟩ := f
  exact fun e he u hu => h u (.captured e he hu)

theorem Bound.grounded_mk {functions : Bindings MethodId} {vars : Bindings ValueExpr}
    (h : ∀ e ∈ vars, e.2.Grounded k) : (Bound.mk functions vars).Grounded k := by
  rintro u ⟨e, he, hu⟩
  exact h e he u hu

theorem Bound.Grounded.vars {b : Bound} (h : b.Grounded k) : ∀ e ∈ b.vars, e.2.Grounded k := by
  obtain ⟨functions, vars⟩ := b
  exact fun e he u hu => h u (.var e he hu)

theorem Bound.Grounded.expression? {b : Bound} {name : String} {e : ValueExpr} (h : b.Grounded k)
    (he : b.expression? name = some e) : e.Grounded k :=
  h.vars (name, e) (Bindings.mem_of_find? he)

theorem ValueExpr.Grounded.parsed {text : String} {n : Node} {b : Bound}
    {expected : Option TypeRef} (h : (ValueExpr.parsed text n b expected).Grounded k) :
    b.Grounded k :=
  fun u hu => h u (.parsed hu)

theorem ValueExpr.Grounded.literal {v : Value} {expected : Option TypeRef}
    (h : (ValueExpr.literal v expected).Grounded k) : v.Grounded k :=
  fun u hu => h u (.literal hu)

theorem ValueExpr.grounded_parsed {text : String} {n : Node} {b : Bound}
    {expected : Option TypeRef} (h : b.Grounded k) :
    (ValueExpr.parsed text n b expected).Grounded k := by
  rintro u ⟨hu⟩
  exact h u hu

theorem MethodExpr.Grounded.parsed {text : String} {n : Node} {b : Bound}
    {returns : Option TypeRef} {params : Option (List TypeRef)}
    (h : (MethodExpr.parsed text n b returns params).Grounded k) : b.Grounded k :=
  fun u hu => h u (.parsed hu)

/-! ## Cells -/

/-- The cell is of this kind, and all values in it are grounded. -/
inductive Cell.Grounded (k : Kinds) : CellKind → Cell → Prop
  | list {vs : List Value} : (∀ v ∈ vs, v.Grounded k) → Cell.Grounded k .list (.items vs)
  | set {vs : List Value} : (∀ v ∈ vs, v.Grounded k) → Cell.Grounded k .set (.items vs)
  | map {es : List (Value × Value)} : (∀ e ∈ es, e.1.Grounded k ∧ e.2.Grounded k) →
      Cell.Grounded k .map (.entries es)
  | array {c : TypeRef} {vs : List Value} : (∀ v ∈ vs, v.Grounded k) →
      Cell.Grounded k (.array c) (.array c vs)
  | object {o : HostObject} : o.fields.Grounded k → Cell.Grounded k (.object o.owner) (.object o)

/-- The type of the values that name a cell of this kind, where it depends on the cell. -/
def CellKind.type? : CellKind → Option TypeRef
  | .array c => some (.array c)
  | .object c => some (.named c)
  | _ => none

theorem Cell.Grounded.type?_eq {s : CellKind} {c : Cell} (h : c.Grounded k s) :
    c.type? = s.type? := by
  cases h <;> rfl

theorem Cell.Grounded.mono {s : CellKind} {c : Cell} (h : c.Grounded k s) (hk : k <+: k') :
    c.Grounded k' s := by
  cases h with
  | list h => exact .list (Value.grounded_all_mono h hk)
  | set h => exact .set (Value.grounded_all_mono h hk)
  | map h => exact .map fun e he => ⟨(h e he).1.mono hk, (h e he).2.mono hk⟩
  | array h => exact .array (Value.grounded_all_mono h hk)
  | object h => exact .object (h.mono hk)

/-- The cells are of these kinds, and all values in them are grounded. -/
def Heap.Grounded (k : Kinds) (h : Heap) : Prop :=
  List.Forall₂ (fun s c => c.Grounded k s) k h.cells.toList

namespace Heap.Grounded

variable {h h' : Heap} {a : Address} {s : CellKind}

theorem length (hh : h.Grounded k) : k.length = h.cells.size := by
  simpa using hh.length_eq

theorem cell (hh : h.Grounded k) (ha : k[a]? = some s) :
    ∃ c, h.cells[a]? = some c ∧ c.Grounded k s := by
  obtain ⟨hlt, rfl⟩ := List.getElem?_eq_some_iff.mp ha
  have hlt' : a < h.cells.toList.length := by
    rw [← hh.length_eq]
    exact hlt
  refine ⟨h.cells[a], Array.getElem?_eq_getElem _, ?_⟩
  have hcell := List.Forall₂.get hh hlt hlt'
  simpa using hcell

theorem kind {c : Cell} (hh : h.Grounded k) (ha : h.cells[a]? = some c) :
    ∃ s, k[a]? = some s ∧ c.Grounded k s := by
  have hlt : a < k.length := by
    rw [hh.length]
    exact (Array.getElem?_eq_some_iff.mp ha).1
  have hs : k[a]? = some k[a] := List.getElem?_eq_getElem hlt
  obtain ⟨c', hc', hground⟩ := hh.cell hs
  rw [ha] at hc'
  cases hc'
  exact ⟨_, hs, hground⟩

theorem items (hh : h.Grounded k) (a : Address) : ∀ v ∈ h.items a, v.Grounded k := by
  unfold Heap.items
  split
  · next vs ha =>
    obtain ⟨s, -, hground⟩ := hh.kind ha
    cases hground with
    | list h => exact h
    | set h => exact h
  · exact nofun

theorem entries (hh : h.Grounded k) (a : Address) :
    ∀ e ∈ h.entries a, e.1.Grounded k ∧ e.2.Grounded k := by
  unfold Heap.entries
  split
  · next es ha =>
    obtain ⟨s, -, hground⟩ := hh.kind ha
    cases hground with
    | map h => exact h
  · exact nofun

theorem array_items (hh : h.Grounded k) (a : Address) : ∀ v ∈ (h.array a).2, v.Grounded k := by
  unfold Heap.array
  split
  · next c vs ha =>
    obtain ⟨s, -, hground⟩ := hh.kind ha
    cases hground with
    | array h => exact h
  · exact nofun

theorem array_component {c : TypeRef} (hh : h.Grounded k) (ha : k[a]? = some (.array c)) :
    (h.array a).1 = c := by
  obtain ⟨_, hcell, hground⟩ := hh.cell ha
  cases hground
  rw [Heap.array, hcell]

/-- A cell is put behind all others. -/
theorem alloc {c : Cell} (hh : h.Grounded k) (hc : c.Grounded (k ++ [s]) s) :
    (h.alloc c).2.Grounded (k ++ [s]) ∧ (k ++ [s])[(h.alloc c).1]? = some s := by
  constructor
  · rw [Heap.Grounded, Heap.alloc, Array.toList_push]
    refine List.rel_append (hh.imp fun _ _ hold => hold.mono ?_) (.cons hc .nil)
    exact List.prefix_append k _
  · show (k ++ [s])[h.cells.size]? = some s
    rw [← hh.length, List.getElem?_concat_length]

/-- A cell is replaced by one of its kind. -/
theorem put {c : Cell} (hh : h.Grounded k) (ha : k[a]? = some s) (hc : c.Grounded k s) :
    (h.put a c).Grounded k := by
  have hcells := set_of_forall₂ hh a hc
  obtain ⟨hlt, rfl⟩ := List.getElem?_eq_some_iff.mp ha
  rw [List.set_getElem_self] at hcells
  rw [Heap.Grounded, Heap.put, Array.toList_setIfInBounds]
  exact hcells

/-- Cells of the same kinds have the same types. -/
theorem retains (hh : h.Grounded k) (hh' : h'.Grounded k') (hk : k <+: k')
    (hl : h'.lineage = h.lineage) : h.Retains h' := by
  refine ⟨hl, ?_, fun a ha => ?_⟩
  · rw [← hh.length, ← hh'.length]
    exact hk.length_le
  · rw [← hh.length] at ha
    have hs : k[a]? = some k[a] := List.getElem?_eq_getElem ha
    obtain ⟨c, hc, hground⟩ := hh.cell hs
    obtain ⟨c', hc', hground'⟩ := hh'.cell (Kinds.getElem?_of_prefix hk hs)
    rw [Heap.cellType?, Heap.cellType?, hc, hc', Option.bind_some, Option.bind_some,
      hground.type?_eq, hground'.type?_eq]

end Heap.Grounded

theorem Value.Grounded.livesIn {h : Heap} {v : Value} (hv : v.Grounded k) (hh : h.Grounded k) :
    v.LivesIn h := by
  intro a ha
  rw [← hh.length]
  cases v with
  | array b | object b =>
    cases ha
    obtain ⟨c, hc⟩ := hv.has
    exact (List.getElem?_eq_some_iff.mp hc).1
  | _ => cases ha

/-! ## Collections -/

namespace Heap

variable (h : Heap)

theorem mem_of_mem_distinct {vs : List Value} {v : Value} (hv : v ∈ h.distinct vs) : v ∈ vs := by
  suffices hfold : ∀ kept : List Value,
      v ∈ vs.foldl (fun kept v => if h.holds kept v then kept else kept ++ [v]) kept →
        v ∈ kept ∨ v ∈ vs by
    rcases hfold [] hv with hv | hv
    · cases hv
    · exact hv
  clear hv
  induction vs with
  | nil => exact fun kept hv => .inl hv
  | cons w vs ih =>
    intro kept hv
    rcases ih _ hv with hv | hv
    · dsimp only at hv
      split at hv
      · exact .inl hv
      · rcases List.mem_append.mp hv with hv | hv
        · exact .inl hv
        · rw [List.mem_singleton.mp hv]
          exact .inr List.mem_cons_self
    · exact .inr (List.mem_cons_of_mem w hv)

theorem mem_of_lookup? {es : List (Value × Value)} {key v : Value}
    (hv : h.lookup? es key = some v) : ∃ e ∈ es, e.2 = v := by
  obtain ⟨e, he, rfl⟩ := Option.map_eq_some_iff.mp hv
  exact ⟨e, List.mem_of_find?_eq_some he, rfl⟩

/-- What holds of all keys and values still does once a value is put at a key. -/
theorem forall_mem_putEntry {p q : Value → Prop} {es : List (Value × Value)} {key v : Value}
    (hes : ∀ e ∈ es, p e.1 ∧ q e.2) (hkey : p key) (hv : q v) :
    ∀ e ∈ h.putEntry es key v, p e.1 ∧ q e.2 := by
  induction es with
  | nil => exact List.forall_mem_singleton.mpr ⟨hkey, hv⟩
  | cons d es ih =>
    obtain ⟨hd, hes⟩ := List.forall_mem_cons.mp hes
    unfold putEntry
    split
    · exact List.forall_mem_cons.mpr ⟨⟨hd.1, hv⟩, hes⟩
    · exact List.forall_mem_cons.mpr ⟨hd, ih hes⟩

theorem forall_mem_putEntries {p q : Value → Prop} {es : List (Value × Value)}
    (hes : ∀ e ∈ es, p e.1 ∧ q e.2) :
    ∀ e ∈ es.foldl (fun kept e => h.putEntry kept e.1 e.2) [], p e.1 ∧ q e.2 := by
  suffices hfold : ∀ kept : List (Value × Value), (∀ e ∈ kept, p e.1 ∧ q e.2) →
      ∀ e ∈ es.foldl (fun kept e => h.putEntry kept e.1 e.2) kept, p e.1 ∧ q e.2 from
    hfold [] nofun
  induction es with
  | nil => exact fun kept hkept => hkept
  | cons e es ih =>
    obtain ⟨he, hes⟩ := List.forall_mem_cons.mp hes
    exact fun kept hkept => ih hes _ (h.forall_mem_putEntry hkept he.1 he.2)

end Heap

end ExprLang
