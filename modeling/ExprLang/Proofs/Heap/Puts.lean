import ExprLang.Proofs.Evaluation.ReadBack
import ExprLang.Proofs.Heap.Building
import ExprLang.Proofs.Heap.Tidy

/-! Entries that are put into a map which is there. The keys of the map stay comparable with each other
as long as none of them contains the map. A key that does not contain itself can even be compared with
values that contain the map: none of them equals the map, since it would have to hold a key that is
equal to one that it lies in. -/

namespace ExprLang

namespace Heap

variable {g h : Heap} {k : Kinds} {v w x : Value} {m n : Nat} {a : Address}

/-! ## How deep equal values nest -/

theorem Nests.succ (hv : h.Nests n v) : h.Nests (n + 1) v := by
  induction n generalizing v with
  | zero => cases hv
  | succ n ih => exact fun w hw => ih (hv w hw)

/-- What lies in a value nests less deep. -/
theorem Nests.below (hv : h.Nests (n + 1) v)
    (hw : Relation.TransGen (fun v w => w ∈ h.contents v) v w) : h.Nests n w := by
  induction hw with
  | single hw => exact hv _ hw
  | tail _ hw ih =>
    cases n with
    | zero => cases ih
    | succ n => exact (ih _ hw).succ

theorem nests_of_leaf (hv : v.cell? = none) : h.Nests (n + 1) v := fun w hw => by
  obtain ⟨a, ha⟩ := exists_cell_of_contents hw
  rw [hv] at ha
  cases ha

theorem exists_of_forall₂ {α : Type} {r : α → α → Prop} {xs ys : List α} (h : List.Forall₂ r xs ys) :
    ∀ x ∈ xs, ∃ y ∈ ys, r x y := by
  induction h with
  | nil => exact nofun
  | @cons x y _ ys hxy _ ih =>
    refine List.forall_mem_cons.mpr ⟨⟨y, List.mem_cons_self, hxy⟩, fun z hz => ?_⟩
    obtain ⟨u, hu, hzu⟩ := ih z hz
    exact ⟨u, List.mem_cons_of_mem y hu, hzu⟩

/-- Equal values nest equally deep. -/
theorem Tidy.nests_of_equalAt (hv : h.Tidy v) (hw : h.Tidy w) (hn : n ≤ h.cells.size + 1)
    (heq : h.equalAt n v w = true) (hm : h.Nests m w) : h.Nests m v := by
  induction m generalizing n v w with
  | zero => cases hm
  | succ m ih =>
    cases n with
    | zero => cases heq
    | succ n =>
      have hle : n ≤ h.cells.size + 1 := Nat.le_of_succ_le hn
      cases equalAt_succ_iff.mp heq with
      | leaf hleaf => exact nests_of_leaf hleaf
      | self => exact hm
      | list hab | array hab =>
        intro x hx
        obtain ⟨y, hy, hxy⟩ := exists_of_forall₂ hab x hx
        exact ih (hv.contents x hx) (hw.contents y hy) hle hxy (hm y hy)
      | set hab =>
        intro x hx
        obtain ⟨y, hy, hyx⟩ := hab.2 x hx
        have hxy := (hw.contents y hy).equalAt_symm (hv.contents x hx) hle hyx
        exact ih (hv.contents x hx) (hw.contents y hy) hle hxy (hm y hy)
      | map hab =>
        intro x hx
        obtain ⟨e, he, hx⟩ := List.mem_flatMap.mp hx
        obtain ⟨f, hf, hkey, hvalue⟩ := hab.2 e he
        obtain ⟨he₁, he₂⟩ := hv.entry he
        obtain ⟨hf₁, hf₂⟩ := hw.entry hf
        obtain ⟨hm₁, hm₂⟩ := hm.entry hf
        rcases List.mem_pair.mp hx with rfl | rfl
        · exact ih he₁ hf₁ hle (hf₁.equalAt_symm he₁ hle hkey) hm₁
        · exact ih he₂ hf₂ hle (hf₂.equalAt_symm he₂ hle hvalue) hm₂

/-- A value that does not contain itself equals nothing that lies in it. -/
theorem Tidy.ne_below (hx : h.Tidy x) (hnests : ∃ m, h.Nests m x)
    (hin : Relation.TransGen (fun v w => w ∈ h.contents v) x v) (hn : n ≤ h.cells.size + 1) :
    ¬h.equalAt n x v = true := by
  intro heq
  classical
  have hleast : h.Nests (Nat.find hnests) x := Nat.find_spec hnests
  cases hm : Nat.find hnests with
  | zero => rw [hm] at hleast; cases hleast
  | succ m =>
    rw [hm] at hleast
    have hv : h.Tidy v := fun u hu => hx u (hin.to_reflTransGen.trans hu)
    exact Nat.find_min hnests (hm ▸ Nat.lt_succ_self m)
      (hx.nests_of_equalAt hv hn heq (hleast.below hin))

/-- What lies in a key of a map does not equal the map. -/
theorem ne_map_of_key (hkeys : ∀ y ∈ h.keys (.map a), h.Tidy y) (hx : x ∈ h.keys (.map a))
    (hnests : ∃ m, h.Nests m x) (hin : h.Inside x v) (hn : n ≤ h.cells.size + 1) (hne : v ≠ .map a) :
    ¬h.equalAt n v (.map a) = true ∧ ¬h.equalAt n (.map a) v = true := by
  have htidy := hkeys x hx
  have hv : h.Tidy v := fun u hu => htidy u (hin.trans hu)
  cases n with
  | zero => exact ⟨nofun, nofun⟩
  | succ n =>
    have hle : n ≤ h.cells.size + 1 := Nat.le_of_succ_le hn
    have hentry {b : Address} {e : Value × Value} (hb : v = .map b) (he : e ∈ h.entries b) :
        h.Tidy e.1 ∧ ¬h.equalAt n x e.1 = true := by
      subst hb
      exact ⟨(hv.entry he).1, htidy.ne_below hnests (.tail' hin (mem_contents_map he).1) hle⟩
    have hkey : ∃ e ∈ h.entries a, e.1 = x := List.mem_map.mp hx
    rw [equalAt_succ_iff, equalAt_succ_iff]
    refine ⟨fun heq => ?_, fun heq => ?_⟩
    · cases heq with
      | leaf _ hmap => cases hmap
      | self => exact hne rfl
      | @map b _ hab =>
        -- As many keys of the map have partners as there are, and so have all.
        have hapart := hv.apart hle fun y z hy hz => hy.equalAt_symm hz hle
        obtain ⟨e, he, rfl⟩ := hkey
        obtain ⟨f, hf, hfe⟩ := Covers.partners (Nat.le_of_eq hab.1.symm) hab.2
          ((List.pairwise_map.mp hapart).imp fun hee' f hf hfe hfe' =>
            hee' f.1 (hkeys _ (List.mem_map_of_mem hf)) hfe.1 hfe'.1) e he
        exact (hentry rfl hf).2 hfe.1
    · cases heq with
      | leaf hmap => cases hmap
      | self => exact hne rfl
      | @map _ b hab =>
        obtain ⟨e, he, rfl⟩ := hkey
        obtain ⟨f, hf, hfe⟩ := hab.2 e he
        obtain ⟨hf', hne⟩ := hentry rfl hf
        exact hne (hf'.equalAt_symm htidy hle hfe.1)

/-! ## What a write to a map changes -/

/-- Comparisons that meet only cells that are the same say the same. -/
theorem equalAt_of_met (hh : h.Grounded k) (hv : g.SameInside h v) (hw : w.Grounded k)
    (hmet : ∀ u y, h.Inside v u → y.Grounded k → ∀ i ≤ n,
      g.equalAt i u y = true ∨ g.equalAt i y u = true → g.SameCell h y) :
    (g.equalAt n v w = true → h.equalAt n v w = true) ∧
      (g.equalAt n w v = true → h.equalAt n w v = true) := by
  induction n generalizing v w with
  | zero => exact ⟨nofun, nofun⟩
  | succ n ih =>
    have hcell (heq : g.equalAt (n + 1) v w = true ∨ g.equalAt (n + 1) w v = true) : g.SameCell h w :=
      hmet v w .refl hw _ le_rfl heq
    have hbelow (hcell : g.SameCell h w) {x y : Value} (hx : x ∈ g.contents v)
        (hy : y ∈ g.contents w) : (g.equalAt n x y = true → h.equalAt n x y = true) ∧
          (g.equalAt n y x = true → h.equalAt n y x = true) := by
      rw [contents_of_sameCell (hv v .refl)] at hx
      rw [contents_of_sameCell hcell] at hy
      exact ih (hv.contents x hx) (hh.contents w y hy) fun u z hu hz i hi =>
        hmet u z (.head hx hu) hz i (Nat.le_succ_of_le hi)
    have hsame {u : Value} (hu : g.SameCell h u) : h.SameCell g u := fun a ha => (hu a ha).symm
    constructor <;> intro heq
    · refine equalAt_succ_iff.mpr ((equalAt_succ_iff.mp heq).imp (hsame (hv v .refl))
        (hsame (hcell (.inl heq))) ?_)
      rintro x y (⟨hx, hy⟩ | ⟨hx, hy⟩)
      · exact (hbelow (hcell (.inl heq)) hx hy).1
      · exact (hbelow (hcell (.inl heq)) hy hx).2
    · refine equalAt_succ_iff.mpr ((equalAt_succ_iff.mp heq).imp (hsame (hcell (.inr heq)))
        (hsame (hv v .refl)) ?_)
      rintro x y (⟨hx, hy⟩ | ⟨hx, hy⟩)
      · exact (hbelow (hcell (.inr heq)) hy hx).2
      · exact (hbelow (hcell (.inr heq)) hx hy).1

theorem apart_of_key (hx : x ∈ h.keys (.map a)) (hacyclic : h.Acyclic x) : ¬h.Inside x (.map a) :=
  fun hin => hacyclic x .refl (.tail' hin (contents_of_keys x hx))

section Write
variable (hh : h.Grounded k) (ha : k[a]? = some .map)
include hh ha

/-- A value that does not contain the map has all its cells elsewhere. -/
theorem sameInside_of_apart (hcells : ∀ b ≠ a, g.cells[b]? = h.cells[b]?) (hv : v.Grounded k)
    (hapart : ¬h.Inside v (.map a)) : g.SameInside h v := by
  intro w hw b hb
  refine hcells b ?_
  rintro rfl
  have hmap : w = .map b := (hh.inside hv hw).has.eq_of_cell (v := .map b) ha hb rfl
  exact hapart (hmap ▸ hw)

/-- A key of a map that does not contain itself equals no more values before the map was changed. -/
theorem equalAt_of_key (hg : g.Grounded k) (hcells : ∀ b ≠ a, h.cells[b]? = g.cells[b]?)
    (hkeys : ∀ y ∈ h.keys (.map a), h.Tidy y) (hx : x ∈ h.keys (.map a)) (hacyclic : h.Acyclic x)
    (hw : w.Grounded k) (hn : n ≤ h.cells.size + 1) (heq : h.equalAt n x w = true) :
    g.equalAt n x w = true := by
  have hknown : x.Grounded k := hh.contents (.map a) x (contents_of_keys x hx)
  have hapart := apart_of_key hx hacyclic
  have hsame : g.SameInside h x := sameInside_of_apart hh ha (fun b hb => (hcells b hb).symm) hknown hapart
  refine (equalAt_of_met hg hsame.symm hw fun u y hu hy i hi hmet b hb => hcells b ?_).1 heq
  rintro rfl
  have hmap : y = .map b := hy.has.eq_of_cell (v := .map b) ha hb rfl
  subst hmap
  have hin := inside_of_sameInside hsame hu
  obtain ⟨hne, hne'⟩ := ne_map_of_key hkeys hx ⟨_, hacyclic.nests hh hknown⟩ hin (hi.trans hn)
    fun hmap => hapart (hmap ▸ hin)
  exact hmet.elim hne hne'

end Write

/-! ## An entry that is put -/

/-- The cells with the value put under the key of a map. -/
def putAt (h : Heap) (a : Address) (key x : Value) : Heap :=
  h.put a (.entries (h.putEntry (h.entries a) key x))

variable {key x j : Value}

theorem size_putAt : (h.putAt a key x).cells.size = h.cells.size := by
  simp [putAt, put]

theorem cells_putAt {b : Address} (hb : b ≠ a) :
    (h.putAt a key x).cells[b]? = h.cells[b]? := h.cell_put_of_ne hb.symm

theorem isSome_lookup? (es : List (Value × Value)) :
    (h.lookup? es key).isSome = h.holds (es.map (·.1)) key := by
  rw [lookup?, Option.isSome_map, holds, List.any_map]
  exact Bool.eq_iff_iff.mpr (by simp)

theorem length_putEntry (es : List (Value × Value)) (key x : Value) :
    (h.putEntry es key x).length =
      if (h.lookup? es key).isSome then es.length else es.length + 1 := by
  have hkeys := congrArg List.length (keys_putEntry (h := h) es key x)
  rw [isSome_lookup?]
  split at hkeys <;> simp_all

theorem lookup?_congr {es : List (Value × Value)} (hes : ∀ e ∈ es, g.equal e.1 j = h.equal e.1 j) :
    g.lookup? es j = h.lookup? es j := by
  induction es with
  | nil => rfl
  | cons e es ih =>
    obtain ⟨he, hes⟩ := List.forall_mem_cons.mp hes
    have hrest := ih hes
    simp only [lookup?, List.find?_cons, he] at hrest ⊢
    cases h.equal e.1 j with
    | true => rfl
    | false => exact hrest

/-- What is found under a key that equals neither the one that was put nor one that equals it. -/
theorem lookup?_putEntry_other {es : List (Value × Value)}
    (hes : ∀ e ∈ es, g.equal e.1 j = h.equal e.1 j)
    (hpartner : ∀ e ∈ es, h.equal e.1 key = true → h.equal e.1 j = false)
    (hnew : h.holds (es.map (·.1)) key = false → g.equal key j = false) :
    g.lookup? (h.putEntry es key x) j = h.lookup? es j := by
  induction es with
  | nil => simp [putEntry, lookup?, hnew rfl]
  | cons e es ih =>
    obtain ⟨he, hes⟩ := List.forall_mem_cons.mp hes
    obtain ⟨hpart, hpartner⟩ := List.forall_mem_cons.mp hpartner
    rw [putEntry]
    cases hek : h.equal e.1 key with
    | true =>
      have hrest : g.lookup? es j = h.lookup? es j := lookup?_congr hes
      have hne := hpart hek
      simp only [if_true, lookup?, List.find?_cons, he, hne] at hrest ⊢
      exact hrest
    | false =>
      have hrest := ih hes hpartner fun habsent => hnew (by
        rw [List.map_cons, holds, List.any_cons, hek, Bool.false_or]
        exact habsent)
      simp only [Bool.false_eq_true, if_false, lookup?, List.find?_cons, he] at hrest ⊢
      cases h.equal e.1 j with
      | true => rfl
      | false => exact hrest

end Heap

namespace Memory

/-- What a key needs to be found where it was put: neither the key nor any other of the map contains the
map, and inside of them no set and no map holds two members that are equal. -/
structure Fits (m : Memory) (a : Address) (key : Value) : Prop where
  map : m.kinds[a]? = some .map
  known : key.Grounded m.kinds
  apart : ∀ y ∈ key :: m.heap.keys (.map a), ¬m.heap.Inside y (.map a)
  tidy : ∀ y ∈ key :: m.heap.keys (.map a), m.heap.Tidy y

/-- What another key needs to be compared with those of the map before and after: it does not contain the
map, unless no key contains itself. -/
structure Comparable (m : Memory) (a : Address) (key j : Value) : Prop where
  known : j.Grounded m.kinds
  apart : ¬m.heap.Inside j (.map a) ∨ ∀ y ∈ key :: m.heap.keys (.map a), m.heap.Acyclic y

namespace Fits

variable {m : Memory} {a : Address} {key x j v w : Value} (hfit : m.Fits a key)
include hfit

theorem known_of_mem {y : Value} (hy : y ∈ key :: m.heap.keys (.map a)) : y.Grounded m.kinds := by
  rcases List.mem_cons.mp hy with rfl | hy
  · exact hfit.known
  · exact m.grounded.contents (.map a) y (Heap.contents_of_keys y hy)

theorem sameInside (hv : v.Grounded m.kinds) (hapart : ¬m.heap.Inside v (.map a)) :
    (m.heap.putAt a key x).SameInside m.heap v :=
  Heap.sameInside_of_apart m.grounded hfit.map (fun _ => Heap.cells_putAt) hv hapart

/-- Values that do not contain the map are equal just where they were. -/
theorem equal_putAt (hv : v.Grounded m.kinds) (hw : w.Grounded m.kinds)
    (hvapart : ¬m.heap.Inside v (.map a)) (hwapart : ¬m.heap.Inside w (.map a)) :
    (m.heap.putAt a key x).equal v w = m.heap.equal v w := by
  have hsv : (m.heap.putAt a key x).SameInside m.heap v := hfit.sameInside hv hvapart
  have hsw : (m.heap.putAt a key x).SameInside m.heap w := hfit.sameInside hw hwapart
  rw [Heap.equal, Heap.equal, Heap.size_putAt]
  exact Bool.eq_iff_iff.mpr
    ⟨Heap.equalAt_of_sameInside hsv hsw, Heap.equalAt_of_sameInside hsv.symm hsw.symm⟩

theorem tidy_putAt (hv : v.Grounded m.kinds) (hapart : ¬m.heap.Inside v (.map a))
    (htidy : m.heap.Tidy v) : (m.heap.putAt a key x).Tidy v := by
  have hsame : (m.heap.putAt a key x).SameInside m.heap v := hfit.sameInside hv hapart
  intro w hw
  have hin := Heap.inside_of_sameInside hsame hw
  rw [Heap.keys_of_sameCell (hsame w hin)]
  refine (htidy w hin).imp_of_mem fun {y z} hy hz hne => ?_
  have hiny : m.heap.Inside v y := hin.tail (Heap.contents_of_keys y hy)
  have hinz : m.heap.Inside v z := hin.tail (Heap.contents_of_keys z hz)
  rw [hfit.equal_putAt (m.grounded.inside hv hiny) (m.grounded.inside hv hinz)
    (fun hmap => hapart (hiny.trans hmap)) fun hmap => hapart (hinz.trans hmap)]
  exact hne

theorem entries_putAt :
    (m.heap.putAt a key x).entries a = m.heap.putEntry (m.heap.entries a) key x :=
  Heap.entries_put (lt_of_kind hfit.map)

theorem keys_putAt : (m.heap.putAt a key x).keys (.map a) =
    if m.heap.holds (m.heap.keys (.map a)) key then m.heap.keys (.map a)
    else m.heap.keys (.map a) ++ [key] := by
  rw [Heap.keys, hfit.entries_putAt]
  exact Heap.keys_putEntry (m.heap.entries a) key x

theorem mem_of_mem_putAt {y : Value} (hy : y ∈ (m.heap.putAt a key x).keys (.map a)) :
    y ∈ key :: m.heap.keys (.map a) := by
  rw [hfit.keys_putAt] at hy
  split at hy
  · exact List.mem_cons_of_mem key hy
  · rcases List.mem_append.mp hy with hy | hy
    · exact List.mem_cons_of_mem key hy
    · exact List.mem_singleton.mp hy ▸ List.mem_cons_self

theorem mem_putAt {y : Value} (hy : y ∈ m.heap.keys (.map a)) :
    y ∈ (m.heap.putAt a key x).keys (.map a) := by
  rw [hfit.keys_putAt]
  split
  · exact hy
  · exact List.mem_append_left [key] hy

/-! ### What the keys equal afterwards -/

/-- A key equals afterwards only what it equalled before. -/
theorem equal_of_putAt (hx : x.Grounded m.kinds) (hj : m.Comparable a key j)
    {y : Value} (hy : y ∈ (m.heap.putAt a key x).keys (.map a))
    (heq : (m.heap.putAt a key x).equal y j = true) : m.heap.equal y j = true := by
  have hmem := hfit.mem_of_mem_putAt hy
  have hknown := hfit.known_of_mem hmem
  rcases hj.apart with hjapart | hacyclic
  · rwa [hfit.equal_putAt hknown hj.known (hfit.apart y hmem) hjapart] at heq
  · have hg : (m.heap.putAt a key x).Grounded m.kinds :=
      m.grounded.put hfit.map
        (.map (m.heap.forall_mem_putEntry (m.grounded.entries a) hfit.known hx))
    have hkeys : ∀ z ∈ (m.heap.putAt a key x).keys (.map a), (m.heap.putAt a key x).Tidy z := by
      intro z hz
      have hz := hfit.mem_of_mem_putAt hz
      exact hfit.tidy_putAt (hfit.known_of_mem hz) (hfit.apart z hz) (hfit.tidy z hz)
    have hcycle : (m.heap.putAt a key x).Acyclic y :=
      (hacyclic y hmem).of_sameInside (hfit.sameInside hknown (hfit.apart y hmem))
    have hsize : (m.heap.putAt a key x).cells.size = m.heap.cells.size := Heap.size_putAt
    rw [Heap.equal, ← hsize]
    exact Heap.equalAt_of_key hg hfit.map m.grounded (fun _ => Heap.cells_putAt) hkeys hy hcycle hj.known
      le_rfl heq

/-- A key that was there equals what it equalled before. -/
theorem equal_key (hx : x.Grounded m.kinds) (hj : m.Comparable a key j)
    {y : Value} (hy : y ∈ m.heap.keys (.map a)) :
    (m.heap.putAt a key x).equal y j = m.heap.equal y j := by
  have hmem : y ∈ key :: m.heap.keys (.map a) := List.mem_cons_of_mem key hy
  refine Bool.eq_iff_iff.mpr ⟨hfit.equal_of_putAt hx hj (hfit.mem_putAt hy), fun heq => ?_⟩
  rcases hj.apart with hjapart | hacyclic
  · rwa [hfit.equal_putAt (hfit.known_of_mem hmem) hj.known (hfit.apart y hmem) hjapart]
  · have hg : (m.heap.putAt a key x).Grounded m.kinds :=
      m.grounded.put hfit.map
        (.map (m.heap.forall_mem_putEntry (m.grounded.entries a) hfit.known hx))
    rw [Heap.equal, Heap.size_putAt]
    exact Heap.equalAt_of_key m.grounded hfit.map hg (fun _ hb => (Heap.cells_putAt hb).symm)
      (fun z hz => hfit.tidy z (List.mem_cons_of_mem key hz)) hy (hacyclic y hmem) hj.known le_rfl heq

/-! ### What is found afterwards -/

/-- The value is found under the key that it was put under. -/
theorem lookup?_self (hself : m.heap.equal key key = true) :
    (m.heap.putAt a key x).lookup? ((m.heap.putAt a key x).entries a) key = some x := by
  rw [hfit.entries_putAt]
  refine Heap.lookup?_putEntry hself fun y hy => ?_
  exact hfit.equal_putAt (hfit.known_of_mem hy) hfit.known (hfit.apart y hy)
    (hfit.apart key List.mem_cons_self)

/-- Under a key that does not equal it there is found what was before. -/
theorem lookup?_other (hx : x.Grounded m.kinds) (hj : m.Comparable a key j)
    (hne : m.heap.equal key j = false) :
    (m.heap.putAt a key x).lookup? ((m.heap.putAt a key x).entries a) j =
      m.heap.lookup? (m.heap.entries a) j := by
  rw [hfit.entries_putAt]
  refine Heap.lookup?_putEntry_other (fun e he => ?_) (fun e he heq => ?_) fun habsent => ?_
  · exact hfit.equal_key hx hj (List.mem_map_of_mem he)
  · -- The two keys would be equal, since both would equal this one.
    have hmem : e.1 ∈ key :: m.heap.keys (.map a) := List.mem_cons_of_mem key (List.mem_map_of_mem he)
    have hsymm := (hfit.tidy _ hmem).equalAt_symm (hfit.tidy key List.mem_cons_self) le_rfl heq
    rw [Bool.eq_false_iff] at hne ⊢
    exact fun heq' => hne (Heap.equalAt_trans hsymm heq')
  · have hkey : key ∈ (m.heap.putAt a key x).keys (.map a) := by
      rw [hfit.keys_putAt, Heap.keys, habsent, if_neg Bool.false_ne_true]
      exact List.mem_append_right _ List.mem_cons_self
    rw [Bool.eq_false_iff] at hne ⊢
    exact fun heq => hne (hfit.equal_of_putAt hx hj hkey heq)

end Fits

end Memory

end ExprLang
