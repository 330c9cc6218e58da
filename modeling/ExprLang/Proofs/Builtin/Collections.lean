import ExprLang.Proofs.Builtin.Getters
import ExprLang.Proofs.Heap.Puts
import ExprLang.Proofs.Resolution.Collections

/-! The ways into sets and maps: the builder that takes all members at once, the resolver for maps, and
the methods of sets and maps. They agree on what a collection holds, and in which order, and on what is
found there afterwards. -/

namespace ExprLang

/-- The computation ends in this value. -/
def Action.Gives {α : Type} (x : Action α) (w : World) (a : α) : Prop := ∃ u, x w = .value a u

/-- No listener objects to a claim. -/
def World.Lenient (w : World) : Prop :=
  ∀ type property, Action.objection? w.context.listeners (.resolved type property) = none

section Ways
variable (host : Host) (handle : Handler)

/-- Runs the first method of this name that a builtin class declares. -/
def Builtin.send (b : Builtin) (name : String) (self : Value) (args : List Value) : Action Value :=
  match b.members.methods.find? (·.name == name) with
  | some m => m.run host handle self args
  | none => Action.fail (.unknownFunction name)

/-- Adds the items to a set, one after the other. -/
def Builtin.addAll (base : Value) : List Value → Action Unit
  | [] => pure ()
  | v :: vs => do
    let _ ← send host handle .set "add" base [v]
    addAll base vs

/-- The two ways to the entries of a map. -/
inductive MapAccess where
  | resolver
  | methods

namespace MapAccess

def get : MapAccess → Value → Value → Action Value
  | resolver, base, key => Resolution.maps false (.get base key)
  | methods, base, key => Builtin.send host handle .map "get" base [key]

/-- Puts the value under the key, whatever the method gives back. -/
def put : MapAccess → Value → Value → Value → Action Unit
  | resolver, base, key, v => Resolution.maps false (.set base key v)
  | methods, base, key, v => do
    let _ ← Builtin.send host handle .map "put" base [key, v]
    pure ()

/-- Puts the entries into a map, one after the other. -/
def putAll (way : MapAccess) (base : Value) : List (Value × Value) → Action Unit
  | [] => pure ()
  | e :: es => do
    way.put host handle base e.1 e.2
    way.putAll base es

end MapAccess

end Ways

/-! ## Running a method -/

namespace Builtin

variable {host : Host} {handle : Handler} {b : Builtin} {name : String} {self v key : Value}
  {args : List Value} {m : Method} {w : World} {a : Address}

theorem send_look {f : Heap → Value → List Value → Except Failure Value}
    (hm : b.members.methods.find? (·.name == name) = some m)
    (hbody : m.body = some fun self args => .look fun h => f h self args)
    (hf : f w.heap self args = .ok v) : send host handle b name self args w = .value v w := by
  rw [send, hm]
  dsimp only
  rw [Method.run_of_body hbody]
  have hperform : (HostCode.look fun h => f h self args).perform host handle w = .value (.ok v) w := by
    rw [HostCode.look, HostCode.perform, Action.bind_value (Action.heap_apply w), hf]
    rfl
  rw [Action.bind_value hperform]
  rfl

theorem send_change {f : Heap → Value → List Value → Except Failure (Value × Heap)} {g : Heap}
    (hm : b.members.methods.find? (·.name == name) = some m)
    (hbody : m.body = some fun self args => .change fun h => f h self args)
    (hf : f w.heap self args = .ok (v, g)) :
    send host handle b name self args w =
      .value v { w with heap := { w.heap with cells := g.cells } } := by
  rw [send, hm]
  dsimp only
  rw [Method.run_of_body hbody, Action.bind_value (HostCode.perform_change_ok hf)]
  rfl

theorem send_get : send host handle .map "get" (.map a) [key] w =
    .value ((w.heap.lookup? (w.heap.entries a) key).getD .null) w :=
  send_look rfl rfl rfl

theorem send_containsKey : send host handle .map "containsKey" (.map a) [key] w =
    .value (.bool (w.heap.lookup? (w.heap.entries a) key).isSome) w :=
  send_look rfl rfl rfl

theorem send_size : send host handle .map "size" (.map a) [] w =
    .value (intOf (w.heap.entries a).length) w :=
  send_look rfl rfl rfl

theorem send_put : send host handle .map "put" (.map a) [key, v] w =
    .value ((w.heap.lookup? (w.heap.entries a) key).getD .null)
      { w with heap := w.heap.putAt a key v } :=
  (send_change (g := w.heap.putAt a key v) rfl rfl rfl).trans rfl

/-- The cells with the item added to a set, unless an equal one is there. -/
def added (h : Heap) (a : Address) (v : Value) : Heap :=
  if h.holds (h.items a) v then h else h.put a (.items (h.items a ++ [v]))

theorem send_add : send host handle .set "add" (.set a) [v] w =
    .value (.bool !w.heap.holds (w.heap.items a) v) { w with heap := added w.heap a v } := by
  have hrun : (if w.heap.holds (w.heap.items a) v then .ok (.bool false, w.heap)
      else .ok (.bool true, w.heap.put a (.items (w.heap.items a ++ [v]))) :
        Except Failure (Value × Heap)) =
      .ok (.bool !w.heap.holds (w.heap.items a) v, added w.heap a v) := by
    unfold added
    cases w.heap.holds (w.heap.items a) v <;> rfl
  refine (send_change (g := added w.heap a v) rfl rfl hrun).trans ?_
  unfold added
  split <;> rfl

end Builtin

/-! ## One after the other -/

section

variable (host : Host) (handle : Handler) {k : Kinds} {h : Heap} {w : World} {a : Address}
  {key v : Value}

namespace MapAccess

variable (way : MapAccess)

/-- Both ways look the key up alike. -/
theorem gives_get (a : Address) (key : Value) (hw : w.Lenient) : (way.get host handle (.map a) key).Gives w
    ((w.heap.lookup? (w.heap.entries a) key).getD .null) := by
  cases way with
  | resolver => exact ⟨_, Resolution.claim_bind_eq_value.mpr ⟨hw _ _, rfl⟩⟩
  | methods => exact ⟨_, Builtin.send_get⟩

/-- Both ways put the entry alike. -/
theorem put_value (a : Address) (key v : Value) (hw : w.Lenient) : ∃ u, way.put host handle (.map a) key v w = .value () u ∧
    u.heap = w.heap.putAt a key v ∧ u.Lenient := by
  cases way with
  | resolver =>
    exact ⟨{ w.claimed (.map a) key with heap := w.heap.putAt a key v },
      Resolution.claim_bind_eq_value.mpr ⟨hw _ _, rfl⟩, rfl, hw⟩
  | methods =>
    refine ⟨{ w with heap := w.heap.putAt a key v }, ?_, rfl, hw⟩
    rw [put, Action.bind_value Builtin.send_put]
    rfl

/-- The newest map takes an entry as if it had been built with it. -/
theorem putAt_alloc {kept : List (Value × Value)} (hh : h.Grounded k)
    (hkept : ∀ x ∈ kept.map (·.1), x.Grounded k ∧ h.Settles x key) (hkey : key.Grounded k) :
    (h.alloc (.entries kept)).2.putAt h.cells.size key v =
      (h.alloc (.entries (h.putEntry kept key v))).2 := by
  have hentries : (h.alloc (.entries kept)).2.entries h.cells.size = kept := by
    rw [Heap.entries, h.cell_alloc]
  rw [Heap.putAt, hentries, Heap.put_alloc, Heap.putEntry_congr fun e he => ?_]
  obtain ⟨hknown, hsettles⟩ := hkept e.1 (List.mem_map_of_mem he)
  exact Heap.equal_alloc hh hknown hkey hsettles

theorem putAll_alloc (kept es : List (Value × Value)) (hh : h.Grounded k)
    (hw : w.Lenient) (hheap : w.heap = (h.alloc (.entries kept)).2)
    (hkept : ∀ x ∈ kept.map (·.1), x.Grounded k ∧ ∀ e ∈ es, h.Settles x e.1)
    (hes : ∀ e ∈ es, e.1.Grounded k) (hsettles : (es.map (·.1)).Pairwise h.Settles) :
    ∃ u, way.putAll host handle (.map h.cells.size) es w = .value () u ∧
      u.heap = (h.alloc (.entries (es.foldl (fun kept e => h.putEntry kept e.1 e.2) kept))).2 := by
  induction es generalizing kept w with
  | nil => exact ⟨w, rfl, hheap⟩
  | cons e es ih =>
    obtain ⟨hknown, hes⟩ := List.forall_mem_cons.mp hes
    obtain ⟨hfirst, hsettles⟩ := List.pairwise_cons.mp hsettles
    obtain ⟨u, hput, hu, hlenient⟩ := way.put_value host handle h.cells.size e.1 e.2 hw
    have hstep : u.heap = (h.alloc (.entries (h.putEntry kept e.1 e.2))).2 := by
      rw [hu, hheap]
      exact putAt_alloc hh (fun x hx => ⟨(hkept x hx).1, (hkept x hx).2 e List.mem_cons_self⟩) hknown
    have hput' : ∀ x ∈ (h.putEntry kept e.1 e.2).map (·.1),
        x.Grounded k ∧ ∀ f ∈ es, h.Settles x f.1 := by
      intro x hx
      have hx : x ∈ kept.map (·.1) ∨ x = e.1 := by
        rw [Heap.keys_putEntry] at hx
        split at hx
        · exact .inl hx
        · simpa using hx
      rcases hx with hx | rfl
      · exact ⟨(hkept x hx).1, fun f hf => (hkept x hx).2 f (List.mem_cons_of_mem e hf)⟩
      · exact ⟨hknown, fun f hf => hfirst f.1 (List.mem_map_of_mem hf)⟩
    obtain ⟨u', hrest, hu'⟩ := ih _ hlenient hstep hput' hes hsettles
    refine ⟨u', ?_, hu'⟩
    rw [putAll, Action.bind_value hput]
    exact hrest

end MapAccess

namespace Builtin

/-- The newest set takes an item as if it had been built with it. -/
theorem added_alloc {kept : List Value} (hh : h.Grounded k)
    (hkept : ∀ x ∈ kept, x.Grounded k ∧ h.Settles x v) (hv : v.Grounded k) :
    added (h.alloc (.items kept)).2 h.cells.size v =
      (h.alloc (.items (if h.holds kept v then kept else kept ++ [v]))).2 := by
  have hitems : (h.alloc (.items kept)).2.items h.cells.size = kept := by
    rw [Heap.items, h.cell_alloc]
  have hholds : (h.alloc (.items kept)).2.holds kept v = h.holds kept v :=
    Heap.holds_congr fun x hx => Heap.equal_alloc hh (hkept x hx).1 hv (hkept x hx).2
  rw [added, hitems, hholds, Heap.put_alloc]
  split <;> rfl

theorem addAll_alloc (kept vs : List Value) (hh : h.Grounded k)
    (hheap : w.heap = (h.alloc (.items kept)).2)
    (hkept : ∀ x ∈ kept, x.Grounded k ∧ ∀ v ∈ vs, h.Settles x v)
    (hvs : ∀ v ∈ vs, v.Grounded k) (hsettles : vs.Pairwise h.Settles) :
    ∃ u, addAll host handle (.set h.cells.size) vs w = .value () u ∧
      u.heap = (h.alloc (.items
        (vs.foldl (fun kept v => if h.holds kept v then kept else kept ++ [v]) kept))).2 := by
  induction vs generalizing kept w with
  | nil => exact ⟨w, rfl, hheap⟩
  | cons v vs ih =>
    obtain ⟨hknown, hvs⟩ := List.forall_mem_cons.mp hvs
    obtain ⟨hfirst, hsettles⟩ := List.pairwise_cons.mp hsettles
    have hstep : added w.heap h.cells.size v =
        (h.alloc (.items (if h.holds kept v then kept else kept ++ [v]))).2 := by
      rw [hheap]
      exact added_alloc hh (fun x hx => ⟨(hkept x hx).1, (hkept x hx).2 v List.mem_cons_self⟩) hknown
    have hadded : ∀ x ∈ (if h.holds kept v then kept else kept ++ [v]),
        x.Grounded k ∧ ∀ y ∈ vs, h.Settles x y := by
      intro x hx
      have hx : x ∈ kept ∨ x = v := by
        split at hx
        · exact .inl hx
        · simpa using hx
      rcases hx with hx | rfl
      · exact ⟨(hkept x hx).1, fun y hy => (hkept x hx).2 y (List.mem_cons_of_mem v hy)⟩
      · exact ⟨hknown, hfirst⟩
    obtain ⟨u, hrest, hu⟩ :=
      ih _ (w := { w with heap := added w.heap h.cells.size v }) hstep hadded hvs hsettles
    refine ⟨u, ?_, hu⟩
    rw [addAll, Action.bind_value send_add]
    exact hrest

end Builtin

/-! ## All ways agree -/

/-- What the map answers once the value was put under the key. -/
structure MapAccess.AfterPut (host : Host) (handle : Handler) (m : Memory) (a : Address) (key v : Value)
    (w u : World) : Prop where
  found (way : MapAccess) : (way.get host handle (.map a) key).Gives u v
  others (way : MapAccess) {j : Value} (hj : m.Comparable a key j) (hne : m.heap.equal key j = false) :
    ∃ x, (way.get host handle (.map a) j).Gives w x ∧ (way.get host handle (.map a) j).Gives u x
  contains : (Builtin.send host handle .map "containsKey" (.map a) [key]).Gives u (.bool true)
  containsOthers {j : Value} (hj : m.Comparable a key j) (hne : m.heap.equal key j = false) :
    ∃ b, (Builtin.send host handle .map "containsKey" (.map a) [j]).Gives w (.bool b) ∧
      (Builtin.send host handle .map "containsKey" (.map a) [j]).Gives u (.bool b)
  size : ∃ (known : Bool) (n : Nat),
    (Builtin.send host handle .map "containsKey" (.map a) [key]).Gives w (.bool known) ∧
      (Builtin.send host handle .map "size" (.map a) []).Gives w (Builtin.intOf n) ∧
      (Builtin.send host handle .map "size" (.map a) []).Gives u
        (Builtin.intOf (if known then n else n + 1))

namespace MapAccess

variable {m : Memory} {u : World}

theorem afterPut (hfit : m.Fits a key) (hv : v.Grounded m.kinds)
    (hself : m.heap.equal key key = true) (hw : w.Lenient) (hu : u.Lenient)
    (hheap : w.heap = m.heap) (hput : u.heap = m.heap.putAt a key v) :
    AfterPut host handle m a key v w u where
  found way := by
    have hget := way.gives_get host handle a key hu
    rwa [hput, hfit.lookup?_self hself] at hget
  others way j hj hne := by
    refine ⟨_, way.gives_get host handle a j hw, ?_⟩
    have hget := way.gives_get host handle a j hu
    rwa [hput, hfit.lookup?_other hv hj hne, ← hheap] at hget
  contains := by
    refine ⟨u, Builtin.send_containsKey.trans ?_⟩
    rw [hput, hfit.lookup?_self hself]
    rfl
  containsOthers hj hne := by
    refine ⟨_, ⟨w, Builtin.send_containsKey⟩, u, Builtin.send_containsKey.trans ?_⟩
    rw [hput, hfit.lookup?_other hv hj hne, hheap]
  size := by
    refine ⟨_, _, ⟨w, Builtin.send_containsKey⟩, ⟨w, Builtin.send_size⟩, u,
      Builtin.send_size.trans ?_⟩
    rw [hput, hfit.entries_putAt, Heap.length_putEntry, hheap]

end MapAccess

theorem Heap.newMap_eq (es : List (Value × Value)) :
    h.newMap es = (.map h.cells.size, (h.alloc (.entries (h.lastOfEach es))).2) := by
  rw [← Heap.foldl_putEntry]
  rfl

theorem Heap.newSet_eq (vs : List Value) :
    h.newSet vs =
      (.set h.cells.size, (h.alloc (.items (vs.eraseDupsBy fun v w => h.equal w v))).2) := by
  rw [← Heap.distinct_eq]
  rfl

end

/-- All ways to build and to change sets and maps agree. A map of entries is what putting them one by one
into a new map gives, by the resolver as by the method: the keys in the order of their first occurrence,
each with its last value; a set of items is what adding them one by one gives. Under a key that was put
there is found the value, under others what was found before, and keys are counted once. -/
theorem MapAccess.writers_agree (host : Host) (handle : Handler) (m : Memory) {w : World}
    (hheap : w.heap = m.heap) (hw : w.Lenient) :
    (∀ es : List (Value × Value), (∀ e ∈ es, e.1.Grounded m.kinds) →
      (es.map (·.1)).Pairwise m.heap.Settles →
        m.heap.newMap es =
          (.map m.heap.cells.size, (m.heap.alloc (.entries (m.heap.lastOfEach es))).2) ∧
        ∀ way : MapAccess, ∃ u, way.putAll host handle (m.heap.newMap []).1 es
            { w with heap := (m.heap.newMap []).2 } = .value () u ∧
          m.heap.newMap es = ((m.heap.newMap []).1, u.heap)) ∧
    (∀ vs : List Value, (∀ v ∈ vs, v.Grounded m.kinds) → vs.Pairwise m.heap.Settles →
        m.heap.newSet vs = (.set m.heap.cells.size,
          (m.heap.alloc (.items (vs.eraseDupsBy fun v w => m.heap.equal w v))).2) ∧
        ∃ u, Builtin.addAll host handle (m.heap.newSet []).1 vs
            { w with heap := (m.heap.newSet []).2 } = .value () u ∧
          m.heap.newSet vs = ((m.heap.newSet []).1, u.heap)) ∧
    ∀ (a : Address) (key v : Value), m.Fits a key → v.Grounded m.kinds →
      m.heap.equal key key = true →
        (∃ old, (MapAccess.methods.get host handle (.map a) key).Gives w old ∧
          (Builtin.send host handle .map "put" (.map a) [key, v]).Gives w old) ∧
        ∃ g, ∀ way : MapAccess, ∃ u, way.put host handle (.map a) key v w = .value () u ∧
          u.heap = g ∧ MapAccess.AfterPut host handle m a key v w u := by
  refine ⟨fun es hes hsettles => ⟨Heap.newMap_eq es, fun way => ?_⟩,
    fun vs hvs hsettles => ⟨Heap.newSet_eq vs, ?_⟩, fun a key v hfit hv hself => ⟨?_, ?_⟩⟩
  · obtain ⟨u, hput, hu⟩ := way.putAll_alloc host handle [] es
      (w := { w with heap := (m.heap.newMap []).2 }) m.grounded hw rfl nofun hes hsettles
    exact ⟨u, hput, congrArg (Value.map m.heap.cells.size, ·) hu.symm⟩
  · obtain ⟨u, hadd, hu⟩ := Builtin.addAll_alloc host handle [] vs
      (w := { w with heap := (m.heap.newSet []).2 }) m.grounded rfl nofun hvs hsettles
    exact ⟨u, hadd, congrArg (Value.set m.heap.cells.size, ·) hu.symm⟩
  · exact ⟨_, ⟨w, Builtin.send_get⟩, _, Builtin.send_put⟩
  · refine ⟨m.heap.putAt a key v, fun way => ?_⟩
    obtain ⟨u, hput, hu, hlenient⟩ := way.put_value host handle a key v hw
    rw [hheap] at hu
    exact ⟨u, hput, hu, MapAccess.afterPut host handle hfit hv hself hw hlenient hheap hu⟩

/-- A world of the standard chain with these cells and without listeners. -/
def World.holding (h : Heap) : World := ⟨h, Context.standard false false, []⟩

theorem World.holding_lenient (h : Heap) : (World.holding h).Lenient := fun _ _ => rfl

/-- The lists `[1]` and `[2]` with a map that has both as keys. -/
def listKeys : Memory := ⟨[.list, .list, .list, .map], Heap.oneMap, Heap.oneMap_grounded⟩

theorem listKeys_fits {a : Address} (ha : a < 3) : listKeys.Fits 3 (.list a) := by
  have hlist {a : Address} (ha : a < 3) : listKeys.heap.Regular listKeys.kinds (.list a) :=
    (Heap.threeLists_regular ha).alloc Heap.threeLists_grounded
  have hflat {a : Address} (ha : a < 3) : listKeys.heap.Flat (.list a) := by
    match a with
    | 0 | 1 | 2 => exact List.forall_mem_singleton.mpr rfl
  have hall {p : Value → Prop} (hp : ∀ a < 3, p (.list a)) :
      ∀ y ∈ Value.list a :: listKeys.heap.keys (.map 3), p y :=
    List.forall_mem_cons.mpr ⟨hp a ha, List.forall_mem_cons.mpr
      ⟨hp 0 (by decide), List.forall_mem_singleton.mpr (hp 1 (by decide))⟩⟩
  refine ⟨rfl, (hlist ha).known, hall fun b hb hin => ?_, hall fun b hb => (hlist hb).tidy⟩
  cases (hflat hb).eq_of_cell hin rfl

theorem listKeys_known : ∀ v ∈ [Value.list 0, .list 1, .list 2], v.Grounded listKeys.kinds :=
  List.forall_mem_cons.mpr ⟨(listKeys_fits (by decide)).known,
    List.forall_mem_cons.mpr ⟨(listKeys_fits (by decide)).known,
      List.forall_mem_singleton.mpr (listKeys_fits (by decide)).known⟩⟩

/-- Entries under the two lists, and under one more `[1]`. -/
def listEntries : List (Value × Value) := [(.list 0, .long 1), (.list 1, .long 2), (.list 2, .long 3)]

/-- A list is found in a map by an equal one, and a set keeps the first of both. -/
theorem writers_agree_on_lists :
    (∀ way : MapAccess, ∃ u, way.putAll .bare (Evaluation.run .bare 0) (.map 4) listEntries
        { World.holding Heap.oneMap with heap := (Heap.oneMap.newMap []).2 } = .value () u ∧
      u.heap.entries 4 = [(.list 0, .long 3), (.list 1, .long 2)]) ∧
    (∃ u, Builtin.addAll .bare (Evaluation.run .bare 0) (.set 4) [.list 0, .list 1, .list 2]
        { World.holding Heap.oneMap with heap := (Heap.oneMap.newSet []).2 } = .value () u ∧
      u.heap.items 4 = [.list 0, .list 1]) ∧
    ∀ way : MapAccess, ∃ u, way.put .bare (Evaluation.run .bare 0) (.map 3) (.list 2) (.text "x")
        (World.holding Heap.oneMap) = .value () u ∧
      MapAccess.AfterPut .bare (Evaluation.run .bare 0) listKeys 3 (.list 2) (.text "x")
        (World.holding Heap.oneMap) u ∧
      listKeys.Comparable 3 (.list 2) (.list 1) ∧
      listKeys.heap.equal (.list 2) (.list 1) = false := by
  obtain ⟨hmaps, hsets, hputs⟩ := MapAccess.writers_agree .bare (Evaluation.run .bare 0) listKeys
    (w := World.holding Heap.oneMap) rfl (World.holding_lenient _)
  refine ⟨fun way => ?_, ?_, fun way => ?_⟩
  · have hknown : ∀ e ∈ listEntries, e.1.Grounded listKeys.kinds :=
      fun e he => listKeys_known e.1 (List.mem_map_of_mem (f := (·.1)) he)
    obtain ⟨u, hput, hu⟩ := (hmaps listEntries hknown (by decide)).2 way
    exact ⟨u, hput, congrArg (fun r => r.2.entries 4) hu.symm⟩
  · obtain ⟨u, hadd, hu⟩ := (hsets [.list 0, .list 1, .list 2] listKeys_known (by decide)).2
    exact ⟨u, hadd, congrArg (fun r => r.2.items 4) hu.symm⟩
  · have hother := listKeys_fits (a := 1) (by decide)
    obtain ⟨-, g, hways⟩ := hputs 3 (.list 2) (.text "x") (listKeys_fits (by decide))
      (Value.grounded_of_isAtom rfl) rfl
    obtain ⟨u, hput, -, hafter⟩ := hways way
    exact ⟨u, hput, hafter, ⟨hother.known, .inl (hother.apart _ List.mem_cons_self)⟩, rfl⟩

/-! ## Keys that do not fit -/

/-- Putting a value under one key changes what is found under another, though each of them equals itself
and they do not equal each other. -/
def MapAccess.Disturbs (cells : Array Cell) (a : Address) (key v j x y : Value) : Prop :=
  let w := World.holding ⟨Host.bare.classes.lineage, cells⟩
  w.heap.equal key key = true ∧ w.heap.equal j j = true ∧ w.heap.equal key j = false ∧
    w.heap.equal j key = false ∧ x ≠ y ∧
      ∀ way : MapAccess, (way.get .bare (Evaluation.run .bare 0) (.map a) j).Gives w x ∧
        ∃ u, way.put .bare (Evaluation.run .bare 0) (.map a) key v w = .value () u ∧
          (way.get .bare (Evaluation.run .bare 0) (.map a) j).Gives u y

/-- Why keys have to fit. A set `{[1], [1]}`, of lists that were made equal, equals both `{[1], [2]}` and
`{[1], [3]}` as the key of a map; the key `{{[1], [2]}}` equals both `{{[1], [1]}}` and `{{[2], [2]}}`.
A key `[m]` of the map `m` equals `[n]` just while the map `n` holds the same, whether `[m]` is put last
or was there. And a key that contains itself equals a list of the map it stands in, until the map
grows. -/
theorem MapAccess.unfit_keys_disturb :
    Disturbs #[.items [.long 1], .items [.long 1], .items [.list 0, .list 1],
        .entries [(.set 2, .text "old")], .items [.long 2], .items [.list 0, .list 4],
        .items [.long 3], .items [.list 0, .list 6]]
      3 (.set 5) (.text "new") (.set 7) (.text "old") (.text "new") ∧
    Disturbs #[.items [.long 1], .items [.long 2], .items [.list 0, .list 1], .items [.set 2],
        .entries [(.set 3, .text "old")], .items [.long 1], .items [.list 0, .list 5],
        .items [.set 6], .items [.long 2], .items [.list 1, .list 8], .items [.set 9]]
      4 (.set 7) (.text "new") (.set 10) (.text "old") (.text "new") ∧
    Disturbs #[.entries [], .items [.map 0], .entries [(.list 1, .long 1)], .items [.map 2]]
      0 (.list 1) (.long 1) (.list 3) .null (.long 1) ∧
    Disturbs #[.entries [(.list 1, .long 1)], .items [.map 0], .entries [(.list 1, .long 1)],
        .items [.map 2]]
      0 (.long 5) (.long 2) (.list 3) (.long 1) .null ∧
    Disturbs #[.entries [(.list 1, .long 1)], .items [.map 0], .entries [(.list 1, .long 1)],
        .items [.map 2]]
      2 (.long 5) (.long 2) (.list 3) (.long 1) .null := by
  refine ⟨⟨rfl, rfl, rfl, rfl, by simp, fun way => ?_⟩, ⟨rfl, rfl, rfl, rfl, by simp, fun way => ?_⟩,
    ⟨rfl, rfl, rfl, rfl, nofun, fun way => ?_⟩, ⟨rfl, rfl, rfl, rfl, nofun, fun way => ?_⟩,
    ⟨rfl, rfl, rfl, rfl, nofun, fun way => ?_⟩⟩ <;>
    cases way <;> exact ⟨⟨_, rfl⟩, _, rfl, _, rfl⟩

end ExprLang
