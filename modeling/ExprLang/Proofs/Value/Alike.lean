import ExprLang.Action
import ExprLang.Evaluation.Capture
import ExprLang.Proofs.Bindings
import ExprLang.Proofs.Value.Bare
import Mathlib.Data.List.Forall2

/-! Values, cells and worlds that differ at most in what lambdas were built with, and there only in
functions and variables that the body of the lambda does not mention. -/

namespace ExprLang

variable {α β : Type}

/-- Two bounds agree on all that these parts of a tree mention: variables, functions, and variables
that are called like functions. -/
structure Bound.Agree (t : ClassTable) (ps : List Node) (b c : Bound) : Prop where
  name (x : String) : .name x ∈ ps → b.expression? x = c.expression? x
  function (ns x : String) (calls : List (List Node)) :
    .call ns x calls ∈ ps → b.method? t ns x = c.method? t ns x
  called (ns x : String) (calls : List (List Node)) :
    .call ns x calls ∈ ps → ns.isEmpty → b.method? t ns x = none →
      b.expression? x = c.expression? x

/-- The same value, but for what lambdas were built with. -/
inductive Value.Alike (t : ClassTable) : Value → Value → Prop where
  | same (v : Value) : Alike t v v
  | lambda {params : List String} {body : Node} {b c : Bound}
      {captured held : List (String × Value)} : Bound.Agree t body.parts b c →
    Bindings.Rel (Value.Alike t) captured held →
    Alike t (.lambda (.mk params body b captured)) (.lambda (.mk params body c held))

/-- An entry of a map, part by part. -/
def Value.AlikePair (t : ClassTable) (e f : Value × Value) : Prop :=
  Value.Alike t e.1 f.1 ∧ Value.Alike t e.2 f.2

inductive Cell.Alike (t : ClassTable) : Cell → Cell → Prop where
  | items {vs ws : List Value} : List.Forall₂ (Value.Alike t) vs ws →
    Alike t (.items vs) (.items ws)
  | entries {es fs : List (Value × Value)} :
    List.Forall₂ (Value.AlikePair t) es fs →
    Alike t (.entries es) (.entries fs)
  | array {c : TypeRef} {vs ws : List Value} : List.Forall₂ (Value.Alike t) vs ws →
    Alike t (.array c vs) (.array c ws)
  | object {owner : ClassId} {id : String} {order : Option Int}
      {fields held : List (String × Value)} : Bindings.Rel (Value.Alike t) fields held →
    Alike t (.object ⟨owner, id, order, fields⟩) (.object ⟨owner, id, order, held⟩)

structure Heap.Alike (t : ClassTable) (h k : Heap) : Prop where
  lineage : h.lineage = k.lineage
  cells : List.Forall₂ (Cell.Alike t) h.cells.toList k.cells.toList

structure Context.Alike (t : ClassTable) (c d : Context) : Prop where
  layout : c.layout = d.layout
  resolved : c.resolved = d.resolved
  scopes : List.Forall₂ (Bindings.Rel (Value.Alike t)) c.scopes d.scopes
  stores : List.Forall₂ (Bindings.Rel (Value.Alike t)) c.stores.toList d.stores.toList
  functions : c.functions = d.functions
  vars : c.vars = d.vars
  imports : c.imports = d.imports
  listeners : c.listeners = d.listeners

structure World.Alike (t : ClassTable) (w u : World) : Prop where
  heap : Heap.Alike t w.heap u.heap
  context : Context.Alike t w.context u.context
  log : w.log = u.log

theorem map_eq_of_forall₂ {γ : Type} {r : α → β → Prop} {f : α → γ} {g : β → γ}
    (hfg : ∀ a b, r a b → f a = g b) {as : List α} {bs : List β} (h : List.Forall₂ r as bs) :
    as.map f = bs.map g := by
  induction h with
  | nil => rfl
  | cons hab _ ih => rw [List.map_cons, List.map_cons, hfg _ _ hab, ih]

theorem getElem?_of_forall₂ {r : α → β → Prop} {as : List α} {bs : List β}
    (h : List.Forall₂ r as bs) (i : Nat) : Option.Rel r as[i]? bs[i]? := by
  induction h generalizing i with
  | nil => exact .none
  | cons hab _ ih =>
    cases i with
    | zero => exact .some hab
    | succ i => exact ih i

theorem tail_of_forall₂ {r : α → β → Prop} {as : List α} {bs : List β}
    (h : List.Forall₂ r as bs) : List.Forall₂ r as.tail bs.tail := by
  cases h with
  | nil => exact .nil
  | cons _ hrest => exact hrest

theorem set_of_forall₂ {r : α → β → Prop} {as : List α} {bs : List β}
    (h : List.Forall₂ r as bs) (i : Nat) {a : α} {b : β} (hab : r a b) :
    List.Forall₂ r (as.set i a) (bs.set i b) := by
  induction h generalizing i with
  | nil => exact .nil
  | cons hcd hrest ih =>
    cases i with
    | zero => exact .cons hab hrest
    | succ i => exact .cons hcd (ih i)

/-! ## Bindings -/

namespace Bindings.Rel
variable {r : α → β → Prop} {b : Bindings α} {c : Bindings β}

theorem refl {r : α → α → Prop} (hr : ∀ a, r a a) (b : Bindings α) : Rel r b b := by
  induction b with
  | nil => exact .nil
  | cons e b ih => exact .cons (hr e.2) ih

theorem find? (h : Rel r b c) (name : String) : Option.Rel r (b.find? name) (c.find? name) := by
  induction h with
  | nil => exact .none
  | cons hab _ ih =>
    simp only [Bindings.find?]
    split
    · exact .some hab
    · exact ih

theorem contains (h : Rel r b c) (name : String) : b.contains name = c.contains name := by
  have hf := h.find? name
  simp only [Bindings.contains]
  generalize b.find? name = x at hf
  generalize c.find? name = y at hf
  cases hf <;> rfl

theorem insert {a : α} {a' : β} (h : Rel r b c) (name : String) (ha : r a a') :
    Rel r (b.insert name a) (c.insert name a') := by
  induction h with
  | nil => exact .cons ha .nil
  | cons hab hrest ih =>
    simp only [Bindings.insert]
    split
    · exact .cons ha hrest
    · split
      · exact .cons ha (.cons hab hrest)
      · exact .cons hab ih

theorem override {b' : Bindings α} {c' : Bindings β} (h : Rel r b c) (h' : Rel r b' c') :
    Rel r (b.override b') (c.override c') := by
  induction h' generalizing b c with
  | nil => exact h
  | cons hab _ ih => exact ih (h.insert _ hab)

end Bindings.Rel

/-! ## Agreement -/

namespace Bound.Agree
variable {t : ClassTable} {ps qs : List Node} {b c : Bound}

theorem refl (t : ClassTable) (ps : List Node) (b : Bound) : Agree t ps b b :=
  ⟨fun _ _ => rfl, fun _ _ _ _ => rfl, fun _ _ _ _ _ _ => rfl⟩

/-- Fewer parts mention less. -/
theorem mono (h : Agree t ps b c) (hsub : qs ⊆ ps) : Agree t qs b c :=
  ⟨fun x hx => h.name x (hsub hx), fun ns x calls hx => h.function ns x calls (hsub hx),
    fun ns x calls hx => h.called ns x calls (hsub hx)⟩

end Bound.Agree

/-! ## Values -/

namespace Value.Alike
variable {t : ClassTable} {v w : Value}

theorem refl_all (vs : List Value) : List.Forall₂ (Value.Alike t) vs vs :=
  List.forall₂_same.mpr fun v _ => .same v

theorem bare_eq (h : Value.Alike t v w) : v.bare = w.bare := by
  cases h <;> rfl

theorem map_bare_eq {vs ws : List Value} (h : List.Forall₂ (Value.Alike t) vs ws) :
    vs.map Value.bare = ws.map Value.bare :=
  map_eq_of_forall₂ (fun _ _ hv => hv.bare_eq) h

theorem isNull_eq (h : Value.Alike t v w) : v.isNull = w.isNull := by
  cases h <;> rfl

end Value.Alike

theorem getD_alike {t : ClassTable} {a b : Option Value} (h : Option.Rel (Value.Alike t) a b) :
    Value.Alike t (a.getD .null) (b.getD .null) := by
  cases h with
  | some hv => exact hv
  | none => exact .same _

theorem Bindings.Rel.map_bare_eq {t : ClassTable} {b c : Bindings Value}
    (h : Rel (Value.Alike t) b c) :
    b.map (fun e => (e.1, e.2.bare)) = c.map fun e => (e.1, e.2.bare) := by
  induction h with
  | nil => rfl
  | cons hv _ ih => simp only [List.map_cons, hv.bare_eq, ih]

theorem Cell.Alike.bare_eq {t : ClassTable} {c d : Cell} (h : Cell.Alike t c d) :
    c.bare = d.bare := by
  cases h with
  | items h => exact congrArg Cell.items (Value.Alike.map_bare_eq h)
  | array h => exact congrArg (Cell.array _) (Value.Alike.map_bare_eq h)
  | entries h =>
    refine congrArg Cell.entries (map_eq_of_forall₂ (fun e f he => ?_) h)
    rw [he.1.bare_eq, he.2.bare_eq]
  | object h => simp only [Cell.bare, HostObject.bare, h.map_bare_eq]

/-- Names bound to arguments by their places; a missing argument is null. -/
theorem Bindings.Rel.insertAll {t : ClassTable} {vs ws : List Value}
    (hvs : List.Forall₂ (Value.Alike t) vs ws) (ps : List (String × Nat)) {b c : Bindings Value}
    (hbc : Rel (Value.Alike t) b c) :
    Rel (Value.Alike t) (ps.foldl (fun b p => Bindings.insert b p.1 (vs.getD p.2 .null)) b)
      (ps.foldl (fun b p => Bindings.insert b p.1 (ws.getD p.2 .null)) c) := by
  have hget (i : Nat) : Value.Alike t (vs.getD i .null) (ws.getD i .null) := by
    simp only [List.getD_eq_getElem?_getD]
    exact getD_alike (getElem?_of_forall₂ hvs i)
  induction ps generalizing b c with
  | nil => exact hbc
  | cons p ps ih => exact ih (hbc.insert p.1 (hget p.2))

/-! ## Heaps -/

namespace Heap.Alike
variable {t : ClassTable} {h k : Heap} {v w : Value}

theorem refl (t : ClassTable) (h : Heap) : Heap.Alike t h h :=
  ⟨rfl, List.forall₂_same.mpr fun c _ => by
    rcases c with vs | es | ⟨c, vs⟩ | ⟨owner, id, order, fields⟩
    · exact .items (Value.Alike.refl_all vs)
    · exact .entries (List.forall₂_same.mpr fun e _ => ⟨.same e.1, .same e.2⟩)
    · exact .array (Value.Alike.refl_all vs)
    · exact .object (.refl .same fields)⟩

theorem bare_eq (hh : Heap.Alike t h k) : h.bare = k.bare := by
  have hcells : h.cells.toList.map Cell.bare = k.cells.toList.map Cell.bare :=
    map_eq_of_forall₂ (fun _ _ hcd => hcd.bare_eq) hh.cells
  simp only [Heap.bare, hh.lineage]
  refine congrArg (Heap.mk _) (Array.toList_inj.mp ?_)
  rw [Array.toList_map, Array.toList_map, hcells]

/-- What only looks at a value sees the same in both heaps. -/
theorem observe (hh : Heap.Alike t h k) (hv : Value.Alike t v w) {f : Heap → Value → α}
    (hheap : ∀ h v, f h.bare v = f h v) (hvalue : ∀ h v, f h v.bare = f h v) :
    f h v = f k w := by
  rw [← hheap h, ← hvalue, hh.bare_eq, hv.bare_eq, hvalue, hheap]

theorem observe₂ {v' w' : Value} (hh : Heap.Alike t h k) (hv : Value.Alike t v w)
    (hv' : Value.Alike t v' w') {f : Heap → Value → Value → α}
    (hheap : ∀ h v v', f h.bare v v' = f h v v')
    (hvalue : ∀ h v v', f h v.bare v'.bare = f h v v') : f h v v' = f k w w' := by
  rw [← hheap h, ← hvalue, hh.bare_eq, hv.bare_eq, hv'.bare_eq, hvalue, hheap]

theorem cell (hh : Heap.Alike t h k) (a : Address) :
    Option.Rel (Cell.Alike t) h.cells[a]? k.cells[a]? := by
  rw [← Array.getElem?_toList, ← Array.getElem?_toList]
  exact getElem?_of_forall₂ hh.cells a

theorem items (hh : Heap.Alike t h k) (a : Address) :
    List.Forall₂ (Value.Alike t) (h.items a) (k.items a) := by
  have hc := hh.cell a
  simp only [Heap.items]
  generalize h.cells[a]? = x at hc
  generalize k.cells[a]? = y at hc
  rcases hc with ⟨⟨hv⟩ | ⟨he⟩ | ⟨hv⟩ | ⟨ho⟩⟩ | _
  · exact hv
  all_goals exact .nil

theorem entries (hh : Heap.Alike t h k) (a : Address) :
    List.Forall₂ (Value.AlikePair t) (h.entries a)
      (k.entries a) := by
  have hc := hh.cell a
  simp only [Heap.entries]
  generalize h.cells[a]? = x at hc
  generalize k.cells[a]? = y at hc
  rcases hc with ⟨⟨hv⟩ | ⟨he⟩ | ⟨hv⟩ | ⟨ho⟩⟩ | _
  · exact .nil
  · exact he
  all_goals exact .nil

theorem array (hh : Heap.Alike t h k) (a : Address) :
    (h.array a).1 = (k.array a).1 ∧
      List.Forall₂ (Value.Alike t) (h.array a).2 (k.array a).2 := by
  have hc := hh.cell a
  simp only [Heap.array]
  generalize h.cells[a]? = x at hc
  generalize k.cells[a]? = y at hc
  rcases hc with ⟨⟨hv⟩ | ⟨he⟩ | ⟨hv⟩ | ⟨ho⟩⟩ | _
  · exact ⟨rfl, .nil⟩
  · exact ⟨rfl, .nil⟩
  · exact ⟨rfl, hv⟩
  all_goals exact ⟨rfl, .nil⟩

theorem owner (hh : Heap.Alike t h k) (a : Address) : h.owner a = k.owner a := by
  rw [← h.owner_bare, ← k.owner_bare, hh.bare_eq]

theorem equal {v' w' : Value} (hh : Heap.Alike t h k) (hv : Value.Alike t v w)
    (hv' : Value.Alike t v' w') : h.equal v v' = k.equal w w' :=
  hh.observe₂ hv hv' Heap.bare_equal Heap.equal_bare

theorem display (hh : Heap.Alike t h k) (hv : Value.Alike t v w) : h.display v = k.display w :=
  hh.observe hv Heap.bare_display Heap.display_bare

theorem typeName (hh : Heap.Alike t h k) (hv : Value.Alike t v w) :
    h.typeName v = k.typeName w :=
  hh.observe hv Heap.bare_typeName Heap.typeName_bare

theorem typeOf? (hh : Heap.Alike t h k) (hv : Value.Alike t v w) : h.typeOf? v = k.typeOf? w :=
  hh.observe hv Heap.bare_typeOf? Heap.typeOf?_bare

theorem classOf? (hh : Heap.Alike t h k) (hv : Value.Alike t v w) :
    h.classOf? v = k.classOf? w :=
  hh.observe hv Heap.bare_classOf? Heap.classOf?_bare

theorem resembles (hh : Heap.Alike t h k) (hv : Value.Alike t v w) : k.Resembles h w v where
  lineage := hh.lineage
  atom := by
    cases hv with
    | same => exact .inl rfl
    | lambda => exact .inr ⟨rfl, rfl⟩
  typeOf? := hh.typeOf? hv
  display := hh.display hv

theorem compares {v' w' : Value} (hh : Heap.Alike t h k) (hv : Value.Alike t v w)
    (hv' : Value.Alike t v' w') : k.Compares h w w' v v' where
  left := hh.resembles hv
  right := hh.resembles hv'
  equal := hh.equal hv hv'
  objectEquals := hh.observe₂ hv hv' Comparison.bare_objectEquals Comparison.objectEquals_bare
  objectOrder? := hh.observe₂ hv hv' Comparison.bare_objectOrder? Comparison.objectOrder?_bare

/-! ## Building collections -/

theorem setCells {cs ds : Array Cell} (hh : Heap.Alike t h k)
    (hc : List.Forall₂ (Cell.Alike t) cs.toList ds.toList) :
    Heap.Alike t { h with cells := cs } { k with cells := ds } :=
  ⟨hh.lineage, hc⟩

theorem put {c d : Cell} (hh : Heap.Alike t h k) (a : Address) (hc : Cell.Alike t c d) :
    Heap.Alike t (h.put a c) (k.put a d) := by
  refine hh.setCells ?_
  rw [Array.toList_setIfInBounds, Array.toList_setIfInBounds]
  exact set_of_forall₂ hh.cells a hc

theorem alloc {c d : Cell} (hh : Heap.Alike t h k) (hc : Cell.Alike t c d) :
    (h.alloc c).1 = (k.alloc d).1 ∧ Heap.Alike t (h.alloc c).2 (k.alloc d).2 := by
  refine ⟨?_, hh.setCells ?_⟩
  · show h.cells.size = k.cells.size
    simpa using hh.cells.length_eq
  · rw [Array.toList_push, Array.toList_push]
    exact List.rel_append hh.cells (.cons hc .nil)

theorem holds {vs ws : List Value} (hh : Heap.Alike t h k)
    (hvs : List.Forall₂ (Value.Alike t) vs ws) (hv : Value.Alike t v w) :
    h.holds vs v = k.holds ws w := by
  simp only [Heap.holds]
  induction hvs with
  | nil => rfl
  | cons hx _ ih => simp only [List.any_cons, ih, hh.equal hx hv]

theorem distinct {vs ws : List Value} (hh : Heap.Alike t h k)
    (hvs : List.Forall₂ (Value.Alike t) vs ws) :
    List.Forall₂ (Value.Alike t) (h.distinct vs) (k.distinct ws) := by
  refine List.rel_foldl (R := Value.Alike t) ?_ .nil hvs
  intro kept kept' hkept v w hv
  dsimp only
  rw [hh.holds hkept hv]
  split
  · exact hkept
  · exact List.rel_append hkept (.cons hv .nil)

theorem lookup? {es fs : List (Value × Value)} (hh : Heap.Alike t h k)
    (he : List.Forall₂ (Value.AlikePair t) es fs)
    (hv : Value.Alike t v w) : Option.Rel (Value.Alike t) (h.lookup? es v) (k.lookup? fs w) := by
  induction he with
  | nil => exact .none
  | cons he _ ih =>
    simp only [Heap.lookup?, List.find?_cons, hh.equal he.1 hv] at ih ⊢
    split
    · exact .some he.2
    · exact ih

theorem putEntry {x y : Value} {es fs : List (Value × Value)} (hh : Heap.Alike t h k)
    (he : List.Forall₂ (Value.AlikePair t) es fs)
    (hv : Value.Alike t v w) (hx : Value.Alike t x y) :
    List.Forall₂ (Value.AlikePair t)
      (h.putEntry es v x) (k.putEntry fs w y) := by
  induction he with
  | nil => exact .cons ⟨hv, hx⟩ .nil
  | cons he hrest ih =>
    simp only [Heap.putEntry, hh.equal he.1 hv]
    split
    · exact .cons ⟨he.1, hx⟩ hrest
    · exact .cons he ih

/-- Two values that are the same address of a new cell, in heaps with cells that are alike. -/
theorem newCell {c d : Cell} (hh : Heap.Alike t h k) (hc : Cell.Alike t c d)
    (make : Address → Value) :
    Value.Alike t (make (h.alloc c).1) (make (k.alloc d).1) ∧
      Heap.Alike t (h.alloc c).2 (k.alloc d).2 := by
  rw [(hh.alloc hc).1]
  exact ⟨.same _, (hh.alloc hc).2⟩

theorem newList {vs ws : List Value} (hh : Heap.Alike t h k)
    (hvs : List.Forall₂ (Value.Alike t) vs ws) :
    Value.Alike t (h.newList vs).1 (k.newList ws).1 ∧
      Heap.Alike t (h.newList vs).2 (k.newList ws).2 :=
  hh.newCell (.items hvs) .list

theorem newSet {vs ws : List Value} (hh : Heap.Alike t h k)
    (hvs : List.Forall₂ (Value.Alike t) vs ws) :
    Value.Alike t (h.newSet vs).1 (k.newSet ws).1 ∧
      Heap.Alike t (h.newSet vs).2 (k.newSet ws).2 :=
  hh.newCell (.items (hh.distinct hvs)) .set

theorem newMap {es fs : List (Value × Value)} (hh : Heap.Alike t h k)
    (he : List.Forall₂ (Value.AlikePair t) es fs) :
    Value.Alike t (h.newMap es).1 (k.newMap fs).1 ∧
      Heap.Alike t (h.newMap es).2 (k.newMap fs).2 := by
  refine hh.newCell (.entries ?_) .map
  exact List.rel_foldl (fun _ _ hkept _ _ he => hh.putEntry hkept he.1 he.2) .nil he

theorem newArray {vs ws : List Value} (hh : Heap.Alike t h k) (component : TypeRef)
    (hvs : List.Forall₂ (Value.Alike t) vs ws) :
    Value.Alike t (h.newArray component vs).1 (k.newArray component ws).1 ∧
      Heap.Alike t (h.newArray component vs).2 (k.newArray component ws).2 :=
  hh.newCell (.array hvs) .array

end Heap.Alike

/-! ## Lambdas -/

namespace Value.Alike
variable {t : ClassTable} {f g : Closure}

theorem body_eq (h : Value.Alike t (.lambda f) (.lambda g)) : f.body = g.body := by
  cases h <;> rfl

theorem params_eq (h : Value.Alike t (.lambda f) (.lambda g)) : f.params = g.params := by
  cases h <;> rfl

theorem agree (h : Value.Alike t (.lambda f) (.lambda g)) :
    Bound.Agree t f.body.parts f.bound g.bound := by
  cases h with
  | same => exact .refl t _ _
  | lambda hb _ => exact hb

theorem captured (h : Value.Alike t (.lambda f) (.lambda g)) :
    Bindings.Rel (Value.Alike t) f.captured g.captured := by
  cases h with
  | same => exact .refl .same _
  | lambda _ hc => exact hc

end Value.Alike

/-! ## Contexts and worlds -/

namespace Context.Alike
variable {t : ClassTable} {c d : Context}

theorem refl (t : ClassTable) (c : Context) : Context.Alike t c c :=
  ⟨rfl, rfl, List.forall₂_same.mpr fun b _ => .refl .same b,
    List.forall₂_same.mpr fun b _ => .refl .same b, rfl, rfl, rfl, rfl⟩

theorem argument? (hc : Context.Alike t c d) (name : String) :
    Option.Rel (Value.Alike t) (c.argument? name) (d.argument? name) := by
  have hs := hc.scopes
  simp only [Context.argument?]
  generalize c.scopes = scopes at hs
  generalize d.scopes = scopes' at hs
  induction hs with
  | nil => exact .none
  | cons hb _ ih =>
    have hf := hb.find? name
    simp only [List.findSome?_cons]
    generalize Bindings.find? _ name = x at hf
    generalize Bindings.find? _ name = y at hf
    cases hf with
    | some hv => exact .some hv
    | none => exact ih

theorem isArgument (hc : Context.Alike t c d) (name : String) :
    c.isArgument name = d.isArgument name := by
  have hs := hc.scopes
  simp only [Context.isArgument]
  generalize c.scopes = scopes at hs
  generalize d.scopes = scopes' at hs
  induction hs with
  | nil => rfl
  | cons hb _ ih => simp only [List.any_cons, hb.contains name, ih]

theorem arguments (hc : Context.Alike t c d) :
    Bindings.Rel (Value.Alike t) c.arguments d.arguments :=
  List.rel_foldr (fun _ _ hs _ _ ho => ho.override hs) .nil hc.scopes

theorem store (hc : Context.Alike t c d) (i : Nat) :
    Bindings.Rel (Value.Alike t) (c.store i) (d.store i) := by
  have hs := getElem?_of_forall₂ hc.stores i
  rw [Array.getElem?_toList, Array.getElem?_toList] at hs
  simp only [Context.store, Array.getD_eq_getD_getElem?]
  generalize c.stores[i]? = x at hs
  generalize d.stores[i]? = y at hs
  cases hs with
  | some hb => exact hb
  | none => exact .nil

theorem setStore {b b' : Bindings Value} (hc : Context.Alike t c d) (i : Nat)
    (hb : Bindings.Rel (Value.Alike t) b b') :
    Context.Alike t (c.setStore i b) (d.setStore i b') := by
  refine { hc with stores := ?_ }
  simp only [Context.setStore, Array.toList_setIfInBounds]
  exact set_of_forall₂ hc.stores i hb

theorem bean? (hc : Context.Alike t c d) (name : String) :
    Option.Rel (Value.Alike t) (c.bean? name) (d.bean? name) := by
  simp only [Context.bean?, Context.beans?, hc.layout]
  cases d.layout.localStore? with
  | none => exact .none
  | some i => exact (hc.store i).find? name

end Context.Alike

theorem World.Alike.refl (t : ClassTable) (w : World) : World.Alike t w w :=
  ⟨.refl t w.heap, .refl t w.context, rfl⟩

end ExprLang
