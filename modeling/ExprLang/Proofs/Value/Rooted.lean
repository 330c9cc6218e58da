import ExprLang.Proofs.Heap.Grounded

/-! Values whose trees all grow from roots. A root is a tree that an expression was built of, together
with the functions and variables that it was built with; a lambda keeps part of such a tree, and the
same functions and variables. The trees of method expressions are targets besides. -/

namespace ExprLang

/-- Which trees are roots, with which bindings, and which trees may name methods. Where such a tree
leaves it to a part of it to name the method, that part may do so. -/
structure Origin where
  roots : Bound → Node → Prop
  targets : Node → Prop
  deferred {body : Node} : targets (.deferred body) → targets body
  dynamic {body : Node} : targets (.dynamic body) → targets body
  choice {condition yes no : Node} : targets (.choice condition yes no) → targets yes ∧ targets no
  sequence {first second : Node} : targets (.sequence first second) → targets second

/-- The origin with these roots, where any tree may name a method. -/
def Origin.ofRoots (roots : Bound → Node → Prop) : Origin where
  roots := roots
  targets _ := True
  deferred := id
  dynamic := id
  choice _ := ⟨trivial, trivial⟩
  sequence := id

mutual

/-- All lambdas and expressions in the value grow from roots. -/
inductive Value.Rooted (O : Origin) : Value → Prop
  | other {v : Value} : (∀ f, v ≠ .lambda f) → (∀ m, v ≠ .method m) → Value.Rooted O v
  | lambda {f : Closure} : Closure.Rooted O f → Value.Rooted O (.lambda f)
  | method {m : MethodExpr} : MethodExpr.Rooted O m → Value.Rooted O (.method m)

inductive Closure.Rooted (O : Origin) : Closure → Prop
  | mk {ps : List String} {body : Node} {b : Bound} {captured : List (String × Value)} :
    Bound.Rooted O b body.parts → (∀ e ∈ captured, Value.Rooted O e.2) →
    Closure.Rooted O (.mk ps body b captured)

/-- These parts belong to one root with the bindings, and so does all that the variables hold. -/
inductive Bound.Rooted (O : Origin) : Bound → List Node → Prop
  | mk {b : Bound} {ps : List Node} (root : Node) : O.roots b root → ps ⊆ root.parts →
    (∀ e ∈ b.vars, ValueExpr.Rooted O e.2) → Bound.Rooted O b ps

inductive ValueExpr.Rooted (O : Origin) : ValueExpr → Prop
  | parsed {text : String} {n : Node} {b : Bound} {expected : Option TypeRef} :
    Bound.Rooted O b n.parts → ValueExpr.Rooted O (.parsed text n b expected)
  | literal {v : Value} {expected : Option TypeRef} : Value.Rooted O v →
    ValueExpr.Rooted O (.literal v expected)

inductive MethodExpr.Rooted (O : Origin) : MethodExpr → Prop
  | parsed {text : String} {n : Node} {b : Bound} {returns : Option TypeRef}
      {params : Option (List TypeRef)} : Bound.Rooted O b n.parts → O.targets n →
    MethodExpr.Rooted O (.parsed text n b returns params)
  | plain {text : String} {returns : Option TypeRef} {params : Option (List TypeRef)} :
    MethodExpr.Rooted O (.plain text returns params)

end

variable {O : Origin}

/-! ## Values -/

namespace Value

theorem rooted_of_isAtom {v : Value} (h : v.isAtom = true) : v.Rooted O :=
  .other (by rintro f rfl; cases h) (by rintro m rfl; cases h)

theorem rooted_null : Value.null.Rooted O := rooted_of_isAtom rfl

theorem rooted_list (a : Address) : (Value.list a).Rooted O := .other nofun nofun

theorem rooted_set (a : Address) : (Value.set a).Rooted O := .other nofun nofun

theorem rooted_map (a : Address) : (Value.map a).Rooted O := .other nofun nofun

theorem rooted_array (a : Address) : (Value.array a).Rooted O := .other nofun nofun

theorem Rooted.closure {f : Closure} (h : (Value.lambda f).Rooted O) : f.Rooted O := by
  cases h with
  | other h => exact absurd rfl (h f)
  | lambda h => exact h

theorem Rooted.expression {m : MethodExpr} (h : (Value.method m).Rooted O) : m.Rooted O := by
  cases h with
  | other _ h => exact absurd rfl (h m)
  | method h => exact h

/-- An item, or null where there is none. -/
theorem rooted_getD {vs : List Value} (h : ∀ v ∈ vs, v.Rooted O) (i : Nat) :
    (vs.getD i .null).Rooted O := by
  rw [List.getD_eq_getElem?_getD]
  cases hv : vs[i]? with
  | none => exact rooted_null
  | some v => exact h v (List.mem_of_getElem? hv)

end Value

theorem Closure.Rooted.bound {f : Closure} (h : f.Rooted O) : f.bound.Rooted O f.body.parts := by
  cases h with
  | mk hb _ => exact hb

theorem Closure.Rooted.captured {f : Closure} (h : f.Rooted O) :
    ∀ e ∈ f.captured, e.2.Rooted O := by
  cases h with
  | mk _ hc => exact hc

theorem ValueExpr.Rooted.bound {text : String} {n : Node} {b : Bound} {expected : Option TypeRef}
    (h : (ValueExpr.parsed text n b expected).Rooted O) : b.Rooted O n.parts := by
  cases h with
  | parsed h => exact h

theorem ValueExpr.Rooted.value {v : Value} {expected : Option TypeRef}
    (h : (ValueExpr.literal v expected).Rooted O) : v.Rooted O := by
  cases h with
  | literal h => exact h

theorem MethodExpr.Rooted.bound {text : String} {n : Node} {b : Bound} {returns : Option TypeRef}
    {params : Option (List TypeRef)} (h : (MethodExpr.parsed text n b returns params).Rooted O) :
    b.Rooted O n.parts := by
  cases h with
  | parsed h _ => exact h

theorem MethodExpr.Rooted.target {text : String} {n : Node} {b : Bound} {returns : Option TypeRef}
    {params : Option (List TypeRef)} (h : (MethodExpr.parsed text n b returns params).Rooted O) :
    O.targets n := by
  cases h with
  | parsed _ h => exact h

namespace Bound.Rooted
variable {b : Bound} {ps qs : List Node} (h : b.Rooted O ps)
include h

theorem root : ∃ root, O.roots b root ∧ ps ⊆ root.parts := by
  cases h with
  | mk root ho hsub => exact ⟨root, ho, hsub⟩

theorem vars : ∀ e ∈ b.vars, e.2.Rooted O := by
  cases h with
  | mk _ _ _ hvars => exact hvars

theorem mono (hsub : qs ⊆ ps) : b.Rooted O qs := by
  obtain ⟨root, ho, hroot⟩ := h.root
  exact .mk root ho (fun n hn => hroot (hsub hn)) h.vars

theorem expression? {name : String} {e : ValueExpr} (he : b.expression? name = some e) :
    e.Rooted O :=
  h.vars (name, e) (Bindings.mem_of_find? he)

end Bound.Rooted

/-! ## Bindings -/

/-- The values of names. -/
def Bindings.Rooted (O : Origin) (b : Bindings Value) : Prop := ∀ e ∈ b, e.2.Rooted O

namespace Bindings.Rooted
variable {b : Bindings Value} (h : b.Rooted O)
include h

theorem find? {name : String} {v : Value} (hv : b.find? name = some v) : v.Rooted O :=
  h (name, v) (mem_of_find? hv)

theorem getD_find? (name : String) : ((b.find? name).getD .null).Rooted O := by
  cases hv : b.find? name with
  | none => exact Value.rooted_null
  | some v => exact h.find? hv

theorem insert (name : String) {v : Value} (hv : v.Rooted O) : (b.insert name v).Rooted O := by
  intro e he
  rcases mem_of_mem_insert he with rfl | he
  · exact hv
  · exact h e he

end Bindings.Rooted

/-- The scope in which the body of a lambda runs. -/
theorem Closure.Rooted.scope {f : Closure} (h : f.Rooted O) {args : List Value}
    (hargs : ∀ v ∈ args, v.Rooted O) : (f.scope args).Rooted O :=
  List.foldlRecOn (motive := fun s : Bindings Value => s.Rooted O) _ _ h.captured
    fun _ hs p _ => hs.insert p.1 (Value.rooted_getD hargs p.2)

/-! ## Cells -/

/-- All values in the cell are rooted. -/
def Cell.Rooted (O : Origin) : Cell → Prop
  | .items vs => ∀ v ∈ vs, v.Rooted O
  | .entries es => ∀ e ∈ es, e.1.Rooted O ∧ e.2.Rooted O
  | .array _ vs => ∀ v ∈ vs, v.Rooted O
  | .object o => o.fields.Rooted O

def Heap.Rooted (O : Origin) (h : Heap) : Prop := ∀ c ∈ h.cells, c.Rooted O

/-- The value of a key, or null. -/
theorem Heap.rooted_lookup (h : Heap) {es : List (Value × Value)}
    (hes : ∀ e ∈ es, e.1.Rooted O ∧ e.2.Rooted O) (key : Value) :
    ((h.lookup? es key).getD .null).Rooted O := by
  cases hv : h.lookup? es key with
  | none => exact Value.rooted_null
  | some v =>
    obtain ⟨e, he, rfl⟩ := h.mem_of_lookup? hv
    exact (hes e he).2

namespace Heap.Rooted
variable {h : Heap} (hh : h.Rooted O)
include hh

theorem cell {a : Address} {c : Cell} (hc : h.cells[a]? = some c) : c.Rooted O :=
  hh c (Array.mem_of_getElem? hc)

theorem items (a : Address) : ∀ v ∈ h.items a, v.Rooted O := by
  unfold Heap.items
  split
  · next vs hc => exact hh.cell hc
  · exact nofun

theorem entries (a : Address) : ∀ e ∈ h.entries a, e.1.Rooted O ∧ e.2.Rooted O := by
  unfold Heap.entries
  split
  · next es hc => exact hh.cell hc
  · exact nofun

theorem array (a : Address) : ∀ v ∈ (h.array a).2, v.Rooted O := by
  unfold Heap.array
  split
  · next c vs hc => exact hh.cell hc
  · exact nofun

theorem put (a : Address) {c : Cell} (hc : c.Rooted O) : (h.put a c).Rooted O := by
  intro d hd
  rcases Array.mem_or_eq_of_mem_setIfInBounds hd with hd | rfl
  · exact hh d hd
  · exact hc

theorem alloc {c : Cell} (hc : c.Rooted O) : (h.alloc c).2.Rooted O := by
  intro d hd
  rcases Array.mem_push.mp hd with hd | rfl
  · exact hh d hd
  · exact hc

theorem newList {vs : List Value} (hvs : ∀ v ∈ vs, v.Rooted O) :
    (h.newList vs).1.Rooted O ∧ (h.newList vs).2.Rooted O :=
  ⟨Value.rooted_list _, hh.alloc hvs⟩

theorem newSet {vs : List Value} (hvs : ∀ v ∈ vs, v.Rooted O) :
    (h.newSet vs).1.Rooted O ∧ (h.newSet vs).2.Rooted O :=
  ⟨Value.rooted_set _, hh.alloc fun v hv => hvs v (h.mem_of_mem_distinct hv)⟩

theorem newMap {es : List (Value × Value)} (hes : ∀ e ∈ es, e.1.Rooted O ∧ e.2.Rooted O) :
    (h.newMap es).1.Rooted O ∧ (h.newMap es).2.Rooted O :=
  ⟨Value.rooted_map _, hh.alloc (h.forall_mem_putEntries hes)⟩

theorem newArray (component : TypeRef) {vs : List Value} (hvs : ∀ v ∈ vs, v.Rooted O) :
    (h.newArray component vs).1.Rooted O ∧ (h.newArray component vs).2.Rooted O :=
  ⟨Value.rooted_array _, hh.alloc hvs⟩

end Heap.Rooted

/-! ## Contexts and worlds -/

/-- All that the names of the context stand for is rooted. The functions in sight may be any. -/
structure Context.Rooted (O : Origin) (c : Context) : Prop where
  scopes : ∀ s ∈ c.scopes, Bindings.Rooted O s
  stores (i : Nat) : (c.store i).Rooted O
  vars : ∀ e ∈ c.vars, e.2.Rooted O

namespace Context.Rooted
variable {c : Context} (h : c.Rooted O)
include h

theorem argument? {name : String} {v : Value} (hv : c.argument? name = some v) : v.Rooted O := by
  obtain ⟨s, hs, hfind⟩ := List.exists_of_findSome?_eq_some hv
  exact (h.scopes s hs).find? hfind

theorem arguments : Bindings.Rooted O c.arguments := by
  have hscopes := h.scopes
  unfold Context.arguments
  generalize c.scopes = scopes at hscopes
  induction scopes with
  | nil => exact nofun
  | cons s outer ih =>
    obtain ⟨hs, houter⟩ := List.forall_mem_cons.mp hscopes
    intro e he
    rcases Bindings.mem_of_mem_override he with he | he
    · exact ih houter e he
    · exact hs e he

theorem bean? {name : String} {v : Value} (hv : c.bean? name = some v) : v.Rooted O := by
  obtain ⟨b, hb, hfind⟩ := Option.bind_eq_some_iff.mp hv
  obtain ⟨i, -, rfl⟩ := Option.map_eq_some_iff.mp hb
  exact (h.stores i).find? hfind

theorem setStore (i : Nat) {b : Bindings Value} (hb : b.Rooted O) : (c.setStore i b).Rooted O := by
  refine ⟨h.scopes, fun j => ?_, h.vars⟩
  have hj := h.stores j
  unfold Context.store Context.setStore at *
  rw [Array.getD_eq_getD_getElem?] at hj ⊢
  rw [Array.getElem?_setIfInBounds]
  split
  · split
    · exact hb
    · exact nofun
  · exact hj

end Context.Rooted

structure World.Rooted (O : Origin) (w : World) : Prop where
  heap : w.heap.Rooted O
  context : w.context.Rooted O

end ExprLang
