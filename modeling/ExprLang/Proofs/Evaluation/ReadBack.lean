import ExprLang.Proofs.Heap.Equality
import ExprLang.Proofs.Resolution.Collections

/-! What is stored in a list, a map or an array is what is read from there. Writing and reading find the
place in their own ways: the one converts the value and asks for a type first, the other gives null for
a property that is null. -/

namespace ExprLang

/-- A value that holds no cells and no trees. -/
def Value.isPlain : Value → Bool
  | .null | .bool _ | .char _ | .byte _ | .short _ | .int _ | .long _ | .bigInt _ | .float _
  | .double _ | .decimal _ | .text _ | .instant _ => true
  | _ => false

namespace Heap

variable {h : Heap} {a : Address}

/-! ## Cells that are written -/

theorem items_put {vs : List Value} (ha : a < h.cells.size) :
    (h.put a (.items vs)).items a = vs := by
  simp [items, put, ha]

theorem entries_put {es : List (Value × Value)} (ha : a < h.cells.size) :
    (h.put a (.entries es)).entries a = es := by
  simp [entries, put, ha]

theorem array_put {t : TypeRef} {vs : List Value} (ha : a < h.cells.size) :
    (h.put a (.array t vs)).array a = (t, vs) := by
  simp [array, put, ha]

/-- A cell that holds an item is there. -/
theorem lt_of_items {i : Nat} (hi : i < (h.items a).length) : a < h.cells.size := by
  by_contra hsize
  have hnone : h.cells[a]? = none := Array.getElem?_eq_none (Nat.le_of_not_lt hsize)
  simp [items, hnone] at hi

theorem lt_of_array {i : Nat} (hi : i < (h.array a).2.length) : a < h.cells.size := by
  by_contra hsize
  have hnone : h.cells[a]? = none := Array.getElem?_eq_none (Nat.le_of_not_lt hsize)
  simp [array, hnone] at hi

/-- The text of a key, and which keys of a map it equals, do not depend on what the map holds. -/
structure Aloof (h : Heap) (a : Address) (k : Value) : Prop where
  text (es : List (Value × Value)) : (h.put a (.entries es)).display k = h.display k
  equal (es : List (Value × Value)) :
    ∀ key ∈ k :: (h.entries a).map (·.1), (h.put a (.entries es)).equal key k = h.equal key k

theorem equalAt_plain {k : Value} (hk : k.isPlain = true) (g : Heap) (m n : Nat) (v : Value) :
    g.equalAt (m + 1) v k = h.equalAt (n + 1) v k := by
  cases k with
  | list | set | map | array | object | cls | lambda | method => cases hk
  | _ => cases v <;> rfl

theorem displayAt_plain {k : Value} (hk : k.isPlain = true) (g : Heap) (m n : Nat) :
    g.displayAt (m + 1) k = h.displayAt (n + 1) k := by
  cases k with
  | list | set | map | array | object | cls | lambda | method => cases hk
  | _ => rfl

theorem Aloof.of_plain {k : Value} (hk : k.isPlain = true) : h.Aloof a k where
  text _ := displayAt_plain hk _ _ _
  equal _ _ _ := equalAt_plain hk _ _ _ _

/-- The value that was put under a key is found there, also by comparisons after it was put. -/
theorem lookup?_putEntry {g : Heap} {k v : Value} (hk : h.equal k k = true)
    {es : List (Value × Value)} (hg : ∀ key ∈ k :: es.map (·.1), g.equal key k = h.equal key k) :
    g.lookup? (h.putEntry es k v) k = some v := by
  induction es with
  | nil => simp [putEntry, lookup?, hg k (by simp), hk]
  | cons e rest ih =>
    have hfirst := hg e.1 (by simp)
    have hrest := ih fun key hkey => hg key (by simp at hkey ⊢; tauto)
    unfold putEntry
    split
    · next he => simp [lookup?, hfirst, he]
    · next he =>
      have hne : ¬ g.equal e.1 k = true := by rwa [hfirst]
      simp only [lookup?, List.find?_cons, hne] at hrest ⊢
      exact hrest

end Heap

/-! ## Indexes -/

namespace Coercion

variable {α : Type} {t : Target α} {h g : Heap} {v : Value} {n : α}

/-- What is read as a number is read without looking into cells. -/
theorem toTarget_elsewhere (hn : toTarget h t v = .ok n) (g : Heap) : toTarget g t v = .ok n := by
  unfold toTarget at hn ⊢
  dsimp only at hn ⊢
  split at hn
  · cases hn
    rfl
  · cases hn

theorem display_of_toTarget (hn : toTarget h t v = .ok n) (g : Heap) : g.display v = h.display v := by
  cases v with
  | list | set | map | array | object | cls | lambda | method => cases hn
  | _ => rfl

end Coercion

/-! ## Stored items -/

namespace Heap

variable {h g : Heap} {base k x : Value}

theorem slot?_cases {n i : Nat} (hi : h.slot? n k = some i) :
    i < n ∧ ∃ index, Coercion.toTarget h Coercion.long k = .ok index ∧
      ∀ g : Heap, g.slot? n k = some i := by
  unfold slot? at hi
  split at hi
  · next index hindex =>
    refine ⟨?_, index, hindex, fun g => ?_⟩
    · unfold Resolution.place? at hi
      split at hi
      · cases hi
        omega
      · cases hi
    · rw [slot?, Coercion.toTarget_elsewhere hindex g]
      exact hi
  · cases hi

/-- A key of a map has to be equal to itself, and aloof from the map; an index needs nothing. -/
def Keyed (h : Heap) (base k : Value) : Prop :=
  match base with
  | .map a => a < h.cells.size ∧ Comparison.isNaN k = false ∧ h.Aloof a k
  | _ => True

/-- The item that was stored under a property is found under it. -/
theorem load?_store? (hkey : h.Keyed base k) (hs : h.store? base k x = some g) :
    g.load? base k = some x := by
  cases base with
  | map a =>
    obtain ⟨ha, hnan, haloof⟩ := hkey
    cases hs
    rw [load?, entries_put ha, lookup?_putEntry (equal_self hnan) (haloof.equal _)]
    rfl
  | list a =>
    obtain ⟨i, hi, rfl⟩ := store?_list_eq_some.mp hs
    obtain ⟨hlt, -, -, hslot⟩ := slot?_cases hi
    rw [load?, items_put (lt_of_items hlt)]
    exact item?_of_slot? (by rw [List.length_set]; exact hslot _) (by simp [hlt])
  | array a =>
    obtain ⟨-, i, hi, rfl⟩ := store?_array_eq_some.mp hs
    obtain ⟨hlt, -, -, hslot⟩ := slot?_cases hi
    rw [load?, array_put (lt_of_array hlt)]
    exact item?_of_slot? (by rw [List.length_set]; exact hslot _) (by simp [hlt])
  | _ => cases hs

/-- What the listeners hear of a claim is the same after the item is stored. -/
theorem claim_store? (hkey : h.Keyed base k) (hs : h.store? base k x = some g) :
    g.typeName base = h.typeName base ∧ g.display k = h.display k := by
  cases base with
  | map a =>
    obtain ⟨-, -, haloof⟩ := hkey
    cases hs
    exact ⟨rfl, haloof.text _⟩
  | list a =>
    obtain ⟨i, hi, rfl⟩ := store?_list_eq_some.mp hs
    obtain ⟨-, index, hindex, -⟩ := slot?_cases hi
    exact ⟨rfl, Coercion.display_of_toTarget hindex _⟩
  | array a =>
    obtain ⟨-, i, hi, rfl⟩ := store?_array_eq_some.mp hs
    obtain ⟨hlt, index, hindex, -⟩ := slot?_cases hi
    refine ⟨?_, Coercion.display_of_toTarget hindex _⟩
    simp only [typeName, typeOf?, array_put (lt_of_array hlt)]
    rfl
  | _ => cases hs

end Heap

/-! ## Evaluation -/

/-- The cells, the chain and the listeners are still those of a world before. -/
structure World.Still (w u : World) : Prop where
  heap : u.heap = w.heap
  layout : u.context.layout = w.context.layout
  listeners : u.context.listeners = w.context.listeners

namespace Evaluation

variable {host : Host} {depth : Nat} {ro : Bool} {b : Bound} {nb nk : Node} {base k v : Value}
  {w w₁ w₂ u : World}

open Resolution (isCollection)

/-- The step that an index takes. -/
def indexing (n : Node) : Step := ⟨.index n, none⟩

/-- An assignment to an item, once the collection and the index are found. -/
theorem assign_item (hchain : w₂.context.layout = .standard [] ro) (hbase : isCollection base = true)
    (hnb : run host depth (.eval b nb) w = .value base w₁)
    (hnk : run host depth (.eval b nk) w₁ = .value k w₂) :
    run host (depth + 1) (.assign b (.path nb [indexing nk]) v) w = .value () u ↔
      w₂.Permits base k ∧ w₂.heap.HasPlace base k ∧
        ∃ x h, w₂.heap.itemFor base v = .ok x ∧ w₂.heap.store? base k x = some h ∧
          u = { (w₂.claimed base k).claimed base k with heap := h } := by
  have hb : base.isNull = false := by
    cases base <;> first | rfl | cases hbase
  have htarget : target host (run host depth) b nb [indexing nk] w =
      .value (base, indexing nk) w₁ := by
    rw [target]
    simp only [List.getLast?_singleton, List.dropLast_singleton, reach]
    rw [Action.bind_value hnb, hb]
    rfl
  have hassign : run host (depth + 1) (.assign b (.path nb [indexing nk]) v) w =
      (do
        let x ← convertForWrite host (run host depth) base k v
        Resolution.set host (run host depth) base k x) w₂ := by
    show assign host (run host depth) b (.path nb [indexing nk]) v w = _
    rw [assign, Action.bind_value htarget]
    exact Action.bind_value hnk
  rw [hassign, Action.bind_eq_value]
  constructor
  · rintro ⟨x, w₃, hconvert, hset⟩
    obtain ⟨hpermits, hplace, hitem, rfl⟩ :=
      (Resolution.convertForWrite_collection hchain hbase).mp hconvert
    obtain ⟨-, h, hstore, rfl⟩ :=
      (Resolution.set_collection (w := w₂.claimed base k) hchain hbase).mp hset
    exact ⟨hpermits, hplace, x, h, hitem, hstore, rfl⟩
  · rintro ⟨hpermits, hplace, x, h, hitem, hstore, rfl⟩
    exact ⟨x, _, (Resolution.convertForWrite_collection hchain hbase).mpr
      ⟨hpermits, hplace, hitem, rfl⟩,
      (Resolution.set_collection (w := w₂.claimed base k) hchain hbase).mpr
        ⟨hpermits, h, hstore, rfl⟩⟩

/-- A name that no lambda and no variable hides is one of the local store. -/
theorem eval_bean {n : String} (hchain : w.context.layout = .standard [] ro)
    (harg : w.context.argument? n = none) (hvar : b.expression? n = none)
    (hv : (w.context.store 0).find? n = some v) (hpermits : w.Permits .null (.text n)) :
    run host (depth + 1) (.eval b (.name n)) w = .value v (w.claimed .null (.text n)) := by
  have hfind : findValue host (run host depth) b n w =
      .value (some v) (w.claimed .null (.text n)) := by
    rw [findValue, Action.bind_value (Action.context_apply w), harg, hvar]
    exact Action.bind_value (Resolution.resolve_bean hchain hv hpermits)
  show nameValue host (run host depth) b n w = _
  rw [nameValue, Action.bind_value hfind]
  rfl

/-- Reading an item. A property that is null has no item. -/
theorem eval_item (hb : base.isNull = false)
    (hnb : run host depth (.eval b nb) w = .value base w₁)
    (hnk : run host depth (.eval b nk) w₁ = .value k w₂) :
    run host (depth + 1) (.eval b (.path nb [indexing nk])) w =
      (if k.isNull then pure .null else Resolution.get host (run host depth) base k) w₂ := by
  show eval host (run host depth) b (.path nb [indexing nk]) w = _
  rw [eval, Action.bind_value hnb]
  simp only [walk, hb, Bool.false_eq_true, if_false, bind_pure]
  exact Action.bind_value hnk

/-- Read after write. Where an assignment to an item of a list, a map or an array succeeds, the item is
read back under the same property, and it is what was stored: the value, or the value as one of the
type of the array. The property is not null, and a key of a map is equal to itself and aloof from the
map. -/
theorem assigned_item_read_back {rd : Nat} {c : Bound} {mb mk : Node} {u₁ u₂ : World}
    (hchain : w₂.context.layout = .standard [] ro) (hbase : isCollection base = true)
    (hnull : k.isNull = false) (hkey : w₂.heap.Keyed base k)
    (hnb : run host depth (.eval b nb) w = .value base w₁)
    (hnk : run host depth (.eval b nk) w₁ = .value k w₂)
    (hassign : run host (depth + 1) (.assign b (.path nb [indexing nk]) v) w = .value () u)
    (hmb : run host rd (.eval c mb) u = .value base u₁)
    (hmk : run host rd (.eval c mk) u₁ = .value k u₂) (hstill : u.Still u₂) :
    ∃ x u', w₂.heap.itemFor base v = .ok x ∧
      run host (rd + 1) (.eval c (.path mb [indexing mk])) u = .value x u' := by
  have hb : base.isNull = false := by
    cases base <;> first | rfl | cases hbase
  obtain ⟨hpermits, -, x, g, hitem, hstore, rfl⟩ := (assign_item hchain hbase hnb hnk).mp hassign
  refine ⟨x, u₂.claimed base k, hitem, ?_⟩
  rw [eval_item hb hmb hmk, hnull]
  refine (Resolution.get_collection (hstill.layout.trans hchain) hbase).mpr ⟨?_, ?_, rfl⟩
  · obtain ⟨htype, htext⟩ := Heap.claim_store? hkey hstore
    rw [World.Permits, hstill.listeners, hstill.heap]
    show Action.objection? w₂.context.listeners (.resolved (g.typeName base) (g.display k)) = none
    rw [htype, htext]
    exact hpermits
  · rw [hstill.heap]
    exact Heap.load?_store? hkey hstore

/-- A world with an empty map `m`, a list `l` of one item and a NaN `n`. -/
def itemWorld : World where
  heap := ⟨Host.bare.classes.lineage, #[.entries [], .items [.null]]⟩
  context := { Context.standard false false with
    stores := #[[("l", .list 1), ("m", .map 0), ("n", .double .nan)]] }
  log := []

theorem eval_itemWorld {n : String} (hw : { w.context with resolved := false } = itemWorld.context)
    (hv : (itemWorld.context.store 0).find? n = some v) :
    run .bare 1 (.eval .empty (.name n)) w = .value v (w.claimed .null (.text n)) := by
  have hscopes : w.context.scopes = [] := congrArg Context.scopes hw
  have hlisteners : w.context.listeners = [] := congrArg Context.listeners hw
  have hstores : w.context.stores = itemWorld.context.stores := by
    have hcongr := congrArg Context.stores hw
    exact hcongr
  refine eval_bean (congrArg Context.layout hw) ?_ rfl ?_
    (World.permits_of_no_listeners hlisteners _ _)
  · rw [Context.argument?, hscopes]
    rfl
  · rw [Context.store, hstores]
    exact hv

/-- A text is a key under which an item is read back. -/
theorem text_key_read_back : ∃ u, run .bare 2 (.assign .empty (.path (.name "m")
      [indexing (.text "a")]) (.long 1)) itemWorld = .value () u ∧
    ∃ x u', itemWorld.heap.itemFor (.map 0) (.long 1) = .ok x ∧
      run .bare 2 (.eval .empty (.path (.name "m") [indexing (.text "a")])) u = .value x u' := by
  have hm := eval_itemWorld (w := itemWorld) (n := "m") rfl rfl
  have hk (w : World) : run .bare 1 (.eval .empty (.text "a")) w = .value (.text "a") w := rfl
  have hassign := (assign_item (v := .long 1) rfl rfl hm (hk _)).mpr
    ⟨rfl, trivial, _, _, rfl, rfl, rfl⟩
  have hkey : (itemWorld.claimed .null (.text "m")).heap.Keyed (.map 0) (.text "a") :=
    ⟨by decide, rfl, .of_plain rfl⟩
  have hread := assigned_item_read_back rfl rfl rfl hkey hm (hk _) hassign
    (eval_itemWorld (n := "m") rfl rfl) (hk _) ⟨rfl, rfl, rfl⟩
  exact ⟨_, hassign, hread⟩

/-- Null is read under a null key or index, whatever was stored there, and under NaN, which no key
equals. -/
theorem null_and_nan_not_read_back :
    (∃ u u', run .bare 2 (.assign .empty (.path (.name "m") [indexing .null]) (.long 1)) itemWorld =
        .value () u ∧
      run .bare 2 (.eval .empty (.path (.name "m") [indexing .null])) u = .value .null u') ∧
    (∃ u u', run .bare 2 (.assign .empty (.path (.name "l") [indexing .null]) (.long 1)) itemWorld =
        .value () u ∧
      run .bare 2 (.eval .empty (.path (.name "l") [indexing .null])) u = .value .null u') ∧
    (∃ u u', run .bare 2 (.assign .empty (.path (.name "m") [indexing (.name "n")]) (.long 1))
        itemWorld = .value () u ∧
      run .bare 2 (.eval .empty (.path (.name "m") [indexing (.name "n")])) u =
        .value .null u') ∧
    itemWorld.heap.itemFor (.map 0) (.long 1) = .ok (.long 1) ∧
    itemWorld.heap.itemFor (.list 1) (.long 1) = .ok (.long 1) := by
  have hm := eval_itemWorld (w := itemWorld) (n := "m") rfl rfl
  have hl := eval_itemWorld (w := itemWorld) (n := "l") rfl rfl
  have hn := eval_itemWorld (w := itemWorld.claimed .null (.text "m")) (n := "n") rfl rfl
  have hnull (w : World) : run .bare 1 (.eval .empty .null) w = .value .null w := rfl
  refine ⟨?_, ?_, ?_, rfl, rfl⟩
  · have hassign := (assign_item (v := .long 1) rfl rfl hm (hnull _)).mpr
      ⟨rfl, trivial, _, _, rfl, rfl, rfl⟩
    exact ⟨_, _, hassign, eval_item (show Value.isNull (.map 0) = false from rfl) (eval_itemWorld rfl rfl) (hnull _)⟩
  · have hassign := (assign_item (v := .long 1) rfl rfl hl (hnull _)).mpr
      ⟨rfl, rfl, _, _, rfl, rfl, rfl⟩
    exact ⟨_, _, hassign, eval_item (show Value.isNull (.list 1) = false from rfl) (eval_itemWorld rfl rfl) (hnull _)⟩
  · have hassign := (assign_item (v := .long 1) rfl rfl hm hn).mpr
      ⟨rfl, trivial, _, _, rfl, rfl, rfl⟩
    have hread {w : World} (hw : w.context.layout = .standard [] false)
        (hl : w.context.listeners = [])
        (hload : w.heap.load? (.map 0) (.double .nan) = some .null) :
        Resolution.get .bare (run .bare 1) (.map 0) (.double .nan) w =
          .value .null (w.claimed (.map 0) (.double .nan)) :=
      (Resolution.get_collection hw rfl).mpr
        ⟨World.permits_of_no_listeners hl _ _, hload, rfl⟩
    exact ⟨_, _, hassign, (eval_item (k := .double .nan) (show Value.isNull (.map 0) = false from rfl)
      (eval_itemWorld rfl rfl) (eval_itemWorld rfl rfl)).trans (hread rfl rfl rfl)⟩

end Evaluation

end ExprLang
