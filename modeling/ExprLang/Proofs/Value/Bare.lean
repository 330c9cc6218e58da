import ExprLang.Proofs.Value.Resemblance

/-! Values without the bindings that lambdas carry. Whatever only looks at values sees no difference:
a lambda shows its parameters and its body. -/

namespace ExprLang

variable {α : Type}

/-- A value without the bindings of a lambda. -/
def Value.bare : Value → Value
  | .lambda f => .lambda (.mk f.params f.body .empty [])
  | v => v

/-- An object with bare fields. -/
def HostObject.bare (o : HostObject) : HostObject :=
  { o with fields := o.fields.map fun e => (e.1, e.2.bare) }

def Cell.bare : Cell → Cell
  | .items vs => .items (vs.map Value.bare)
  | .entries es => .entries (es.map fun e => (e.1.bare, e.2.bare))
  | .array c vs => .array c (vs.map Value.bare)
  | .object o => .object o.bare

/-- All cells with bare values. -/
def Heap.bare (h : Heap) : Heap := { h with cells := h.cells.map Cell.bare }

@[simp] theorem Value.text?_bare (v : Value) : v.bare.text? = v.text? := by
  cases v <;> rfl

namespace Heap
variable (h : Heap)

@[simp] theorem lineage_bare : h.bare.lineage = h.lineage := rfl

@[simp] theorem cells_size_bare : h.bare.cells.size = h.cells.size := by
  simp [Heap.bare]

theorem cells_bare (a : Address) : h.bare.cells[a]? = (h.cells[a]?).map Cell.bare := by
  simp [Heap.bare]

@[simp] theorem items_bare (a : Address) : h.bare.items a = (h.items a).map Value.bare := by
  simp only [items, cells_bare]
  rcases h.cells[a]? with _ | (_ | _ | _ | _) <;> rfl

@[simp] theorem entries_bare (a : Address) :
    h.bare.entries a = (h.entries a).map fun e => (e.1.bare, e.2.bare) := by
  simp only [entries, cells_bare]
  rcases h.cells[a]? with _ | (_ | _ | _ | _) <;> rfl

@[simp] theorem array_bare (a : Address) :
    h.bare.array a = ((h.array a).1, (h.array a).2.map Value.bare) := by
  simp only [array, cells_bare]
  rcases h.cells[a]? with _ | (_ | _ | _ | _) <;> rfl

@[simp] theorem object?_bare (a : Address) :
    h.bare.object? a = (h.object? a).map HostObject.bare := by
  simp only [object?, cells_bare]
  rcases h.cells[a]? with _ | (_ | _ | _ | _) <;> rfl

@[simp] theorem owner_bare (a : Address) : h.bare.owner a = h.owner a := by
  simp only [owner, object?_bare]
  cases h.object? a <;> rfl

@[simp] theorem bare_typeOf? (v : Value) : h.bare.typeOf? v = h.typeOf? v := by
  cases v <;> simp [typeOf?]

@[simp] theorem typeOf?_bare (v : Value) : h.typeOf? v.bare = h.typeOf? v := by
  cases v <;> rfl

@[simp] theorem bare_typeName (v : Value) : h.bare.typeName v = h.typeName v := by
  simp [typeName]

@[simp] theorem typeName_bare (v : Value) : h.typeName v.bare = h.typeName v := by
  simp [typeName]

@[simp] theorem bare_classOf? (v : Value) : h.bare.classOf? v = h.classOf? v := by
  cases v <;> simp [classOf?]

@[simp] theorem classOf?_bare (v : Value) : h.classOf? v.bare = h.classOf? v := by
  cases v <;> rfl

/-! ## Text -/

theorem displayAt_bare (depth : Nat) (v : Value) :
    h.displayAt depth v.bare = h.displayAt depth v := by
  cases depth with
  | zero => rfl
  | succ depth => cases v <;> rfl

theorem bare_displayAt (depth : Nat) (v : Value) :
    h.bare.displayAt depth v = h.displayAt depth v := by
  induction depth generalizing v with
  | zero => rfl
  | succ depth ih =>
    have hmap (vs : List Value) :
        (vs.map Value.bare).map (h.bare.displayAt depth) = vs.map (h.displayAt depth) := by
      simp only [List.map_map, Function.comp_def, ih, displayAt_bare]
    cases v with
    | list a => simp only [displayAt, items_bare, hmap]
    | set a => simp only [displayAt, items_bare, hmap]
    | array a => simp only [displayAt, array_bare, hmap]
    | map a =>
      simp only [displayAt, entries_bare, List.map_map, Function.comp_def, ih, displayAt_bare]
    | object a =>
      simp only [displayAt, owner_bare, object?_bare, lineage_bare]
      cases h.object? a <;> rfl
    | _ => rfl

@[simp] theorem bare_display (v : Value) : h.bare.display v = h.display v := by
  simp only [display, cells_size_bare, bare_displayAt]

@[simp] theorem display_bare (v : Value) : h.display v.bare = h.display v :=
  h.displayAt_bare _ v

/-! ## Equality -/

theorem pairwise_map (f : Value → Value) (r s : Value → Value → Bool)
    (hrs : ∀ v w, r (f v) (f w) = s v w) (vs ws : List Value) :
    pairwise r (vs.map f) (ws.map f) = pairwise s vs ws := by
  induction vs generalizing ws with
  | nil => cases ws <;> rfl
  | cons v vs ih =>
    cases ws with
    | nil => rfl
    | cons w ws => simp only [List.map_cons, pairwise, hrs, ih]

theorem equalAt_bare (depth : Nat) (v w : Value) :
    h.equalAt depth v.bare w.bare = h.equalAt depth v w := by
  cases depth with
  | zero => rfl
  | succ depth => cases v <;> cases w <;> rfl

theorem bare_equalAt (depth : Nat) (v w : Value) :
    h.bare.equalAt depth v w = h.equalAt depth v w := by
  induction depth generalizing v w with
  | zero => rfl
  | succ depth ih =>
    have hbare (v w : Value) : h.bare.equalAt depth v.bare w.bare = h.equalAt depth v w := by
      rw [ih, equalAt_bare]
    have hpair (vs ws : List Value) :=
      pairwise_map Value.bare (h.bare.equalAt depth) (h.equalAt depth) hbare vs ws
    cases v <;> cases w <;> try rfl
    case list.list a b => simp only [equalAt, items_bare, hpair]
    case set.set a b =>
      simp only [equalAt, items_bare, List.length_map, List.all_map, List.any_map,
        Function.comp_def, hbare]
    case map.map a b =>
      simp only [equalAt, entries_bare, List.length_map, List.all_map, List.any_map,
        Function.comp_def, hbare]
    case array.array a b => simp only [equalAt, array_bare, hpair]

@[simp] theorem bare_equal (v w : Value) : h.bare.equal v w = h.equal v w := by
  simp only [equal, cells_size_bare, bare_equalAt]

@[simp] theorem equal_bare (v w : Value) : h.equal v.bare w.bare = h.equal v w :=
  h.equalAt_bare _ v w

end Heap

/-! ## Resemblance -/

namespace Heap
variable (h : Heap)

theorem bare_resembles (v : Value) : h.Resembles h.bare v v :=
  ⟨rfl, .inl rfl, h.bare_typeOf? v, h.bare_display v⟩

theorem resembles_bare (v : Value) : h.Resembles h v v.bare where
  lineage := rfl
  atom := by cases v <;> first | exact .inl rfl | exact .inr ⟨rfl, rfl⟩
  typeOf? := h.typeOf?_bare v
  display := h.display_bare v

end Heap

namespace Coercion
variable (h : Heap)

@[simp] theorem bare_toTarget (t : Target α) (v : Value) :
    toTarget h.bare t v = toTarget h t v := (h.bare_resembles v).toTarget t

@[simp] theorem toTarget_bare (t : Target α) (v : Value) :
    toTarget h t v.bare = toTarget h t v := (h.resembles_bare v).toTarget t

@[simp] theorem bare_toNumber (k : NumberKind) (v : Value) :
    toNumber h.bare k v = toNumber h k v := (h.bare_resembles v).toNumber k

@[simp] theorem toNumber_bare (k : NumberKind) (v : Value) :
    toNumber h k v.bare = toNumber h k v := (h.resembles_bare v).toNumber k

@[simp] theorem bare_toInstant (v : Value) : toInstant h.bare v = toInstant h v :=
  (h.bare_resembles v).toInstant

@[simp] theorem toInstant_bare (v : Value) : toInstant h v.bare = toInstant h v :=
  (h.resembles_bare v).toInstant

end Coercion

/-! ## Objects and emptiness -/

theorem HostObject.bare_equals (h : Heap) (o : HostObject) (self : Address) (v : Value) :
    o.bare.equals h.bare self v = o.equals h self v := by
  simp only [HostObject.equals, Heap.object?_bare, Heap.items_bare, List.length_map,
    Option.bind_map]
  rfl

theorem HostObject.bare_compare? (h : Heap) (o : HostObject) (v : Value) :
    o.bare.compare? h.bare v = o.compare? h v := by
  cases v with
  | object a =>
    simp only [HostObject.compare?, Heap.object?_bare, Option.bind_eq_bind, Option.bind_map]
    rfl
  | _ => rfl

namespace Comparison
variable (h : Heap)

theorem bare_objectEquals (a b : Value) : objectEquals h.bare a b = objectEquals h a b := by
  have hobj (x : Address) (w : Value) : (h.bare.object? x).map (fun o => o.equals h.bare x w) =
      (h.object? x).map fun o => o.equals h x w := by
    rw [Heap.object?_bare, Option.map_map]
    exact congrArg (Option.map · _) (funext fun o => o.bare_equals h x w)
  simp only [objectEquals, hobj]

theorem objectEquals_bare (a b : Value) : objectEquals h a.bare b.bare = objectEquals h a b := by
  cases a <;> cases b <;> rfl

theorem bare_objectOrder? (a b : Value) : objectOrder? h.bare a b = objectOrder? h a b := by
  have hobj (x : Address) (w : Value) : (h.bare.object? x).bind (fun o => o.compare? h.bare w) =
      (h.object? x).bind fun o => o.compare? h w := by
    rw [Heap.object?_bare, Option.bind_map]
    exact congrArg (Option.bind _) (funext fun o => o.bare_compare? h w)
  simp only [objectOrder?, hobj]

theorem objectOrder?_bare (a b : Value) : objectOrder? h a.bare b.bare = objectOrder? h a b := by
  cases a <;> cases b <;> rfl

theorem bare_isEmpty (v : Value) : isEmpty h.bare v = isEmpty h v := by
  cases v <;> simp [isEmpty]

theorem isEmpty_bare (v : Value) : isEmpty h v.bare = isEmpty h v := by
  cases v <;> rfl

end Comparison

end ExprLang
