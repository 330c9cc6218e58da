import ExprLang.Proofs.Heap.Finite
import ExprLang.Proofs.Heap.Members

/-! Sets and maps that are built from lists, item by item or entry by entry. A set keeps the first of the
items that are equal; a map keeps the first of the keys that are equal, with the value that came last. -/

namespace ExprLang

/-! ## Tests that come to an end -/

theorem all_of_allM {α : Type} {p : α → Option Bool} {q : α → Bool} {xs : List α} {b : Bool}
    (h : xs.allM p = some b) (hpq : ∀ x ∈ xs, ∀ c, p x = some c → q x = c) : xs.all q = b := by
  induction xs with
  | nil => exact Option.some.inj h
  | cons x xs ih =>
    obtain ⟨hx, hxs⟩ := List.forall_mem_cons.mp hpq
    rw [List.allM] at h
    rw [List.all_cons]
    cases hp : p x with
    | none => simp [hp] at h
    | some c =>
      rw [hp] at h
      cases c with
      | false => rw [hx false hp, ← Option.some.inj h, Bool.false_and]
      | true => rw [hx true hp, Bool.true_and, ih h hxs]

theorem any_of_anyM {α : Type} {p : α → Option Bool} {q : α → Bool} {xs : List α} {b : Bool}
    (h : xs.anyM p = some b) (hpq : ∀ x ∈ xs, ∀ c, p x = some c → q x = c) : xs.any q = b := by
  induction xs with
  | nil => exact Option.some.inj h
  | cons x xs ih =>
    obtain ⟨hx, hxs⟩ := List.forall_mem_cons.mp hpq
    rw [List.anyM] at h
    rw [List.any_cons]
    cases hp : p x with
    | none => simp [hp] at h
    | some c =>
      rw [hp] at h
      cases c with
      | false => rw [hx false hp, Bool.false_or, ih h hxs]
      | true => rw [hx true hp, ← Option.some.inj h, Bool.true_or]

namespace Heap

variable {g h : Heap} {k : Kinds} {v w : Value} {m n : Nat} {b : Bool}

theorem pairwise_of_eachWithin? {α : Type} {r : α → α → Option Bool} {q : α → α → Bool}
    {xs ys : List α} (hr : ∀ x y c, r x y = some c → q x y = c)
    (h : eachWithin? r xs ys = some b) : pairwise q xs ys = b := by
  unfold eachWithin? at h
  induction xs generalizing ys with
  | nil => cases ys <;> exact Option.some.inj h
  | cons x xs ih =>
    cases ys with
    | nil => exact Option.some.inj h
    | cons y ys =>
      rw [pairwise]
      split at h
      · next hlen =>
        have hlen' : (xs.length == ys.length) = true := by simpa using hlen
        rw [List.zip_cons_cons, List.allM] at h
        cases hxy : r x y with
        | none => simp [hxy] at h
        | some c =>
          rw [hxy] at h
          cases c with
          | false => rw [hr x y false hxy, ← Option.some.inj h, Bool.false_and]
          | true =>
            rw [hr x y true hxy, Bool.true_and]
            exact ih (by rw [if_pos hlen']; exact h)
      · next hlen =>
        have hlen' : ¬(xs.length == ys.length) = true := by simpa using hlen
        rw [ih (by rw [if_neg hlen']; exact h), ← Option.some.inj h, Bool.and_false]

theorem covers_of_coversWithin? {α : Type} {r : α → α → Option Bool} {q : α → α → Bool}
    {xs ys : List α} (hr : ∀ x y c, r x y = some c → q x y = c)
    (h : coversWithin? r xs ys = some b) :
    (xs.length == ys.length && xs.all fun x => ys.any fun y => q y x) = b := by
  rw [coversWithin?] at h
  split at h
  · next hlen =>
    rw [hlen, Bool.true_and]
    exact all_of_allM h fun x _ c hx => any_of_anyM hx fun y _ d hy => hr y x d hy
  · next hlen => rw [Bool.eq_false_iff.mpr hlen, ← Option.some.inj h, Bool.false_and]

theorem same_of_sameEntryWithin? {r : Value → Value → Option Bool} {q : Value → Value → Bool}
    (hr : ∀ x y c, r x y = some c → q x y = c) {f e : Value × Value}
    (h : sameEntryWithin? r f e = some b) : (q f.1 e.1 && q f.2 e.2) = b := by
  rw [sameEntryWithin?] at h
  cases hkey : r f.1 e.1 with
  | none => simp [hkey] at h
  | some c =>
    rw [hkey] at h
    cases c with
    | false => rw [hr _ _ false hkey, ← Option.some.inj h, Bool.false_and]
    | true => rw [hr _ _ true hkey, Bool.true_and, hr _ _ b h]

/-- A comparison that comes to an end says the same to any greater depth. -/
theorem equalAt_of_equalWithin? (hmn : n ≤ m) (h : g.equalWithin? n v w = some b) :
    g.equalAt m v w = b := by
  induction n generalizing m v w b with
  | zero => cases h
  | succ n ih =>
    obtain ⟨m, rfl⟩ := Nat.exists_eq_add_of_le' (Nat.lt_of_lt_of_le n.succ_pos hmn)
    have hdeeper : ∀ x y c, g.equalWithin? n x y = some c → g.equalAt m x y = c :=
      fun x y c hxy => ih (Nat.le_of_succ_le_succ hmn) hxy
    -- Lists, sets, maps and arrays are the same cell, or are compared by what they hold.
    have hcell {a b' : Address} {r : Option Bool} {q : Bool}
        (hab : (if a == b' then some true else r) = some b) (hq : r = some b → q = b) :
        (a == b' || q) = b := by
      split at hab
      · next heq => rw [heq, ← Option.some.inj hab, Bool.true_or]
      · next heq => rw [Bool.eq_false_iff.mpr heq, Bool.false_or, hq hab]
    have hleaf (hv : v.cell? = none) (h : some (g.equalAt 1 v w) = some b) :
        g.equalAt (m + 1) v w = b := by
      rw [equalAt_leaf hv g m 0, Option.some.inj h]
    cases v with
    | list a =>
      cases w with
      | list _ => exact hcell h (pairwise_of_eachWithin? hdeeper)
      | _ => exact Option.some.inj h
    | set a =>
      cases w with
      | set _ => exact hcell h (covers_of_coversWithin? hdeeper)
      | _ => exact Option.some.inj h
    | map a =>
      cases w with
      | map _ =>
        exact hcell h (covers_of_coversWithin? fun f e c => same_of_sameEntryWithin? hdeeper)
      | _ => exact Option.some.inj h
    | array a =>
      cases w with
      | array _ => exact hcell h (pairwise_of_eachWithin? hdeeper)
      | _ => exact Option.some.inj h
    | _ => exact hleaf rfl h

/-- The comparison of the two values comes to an end. -/
def Settles (h : Heap) (v w : Value) : Prop := (h.equalWithin? (h.cells.size + 1) v w).isSome = true

instance : Decidable (h.Settles v w) := inferInstanceAs (Decidable (_ = true))

theorem Acyclic.settles (hh : h.Grounded k) (hv : v.Grounded k) (ha : h.Acyclic v) (w : Value) :
    h.Settles v w := by
  rw [Settles, equalWithin?_of_nests (.inl (ha.nests hh hv))]
  rfl

theorem Settles.equalAt (hs : h.Settles v w) (hn : h.cells.size + 1 ≤ n) :
    h.equalAt n v w = h.equal v w := by
  obtain ⟨b, hb⟩ := Option.isSome_iff_exists.mp hs
  rw [equalAt_of_equalWithin? hn hb, equal, equalAt_of_equalWithin? le_rfl hb]

theorem SameInside.symm (hs : g.SameInside h v) : h.SameInside g v :=
  fun w hw a ha => (hs w (inside_of_sameInside hs hw) a ha).symm

/-- Values that were there before a new cell are equal just where they were. -/
theorem equal_alloc {c : Cell} (hh : h.Grounded k) (hv : v.Grounded k) (hw : w.Grounded k)
    (hs : h.Settles v w) : (h.alloc c).2.equal v w = h.equal v w := by
  have hsv := sameInside_alloc (c := c) hh hv
  have hsw := sameInside_alloc (c := c) hh hw
  have hsize : h.cells.size + 1 ≤ (h.alloc c).2.cells.size + 1 := by simp [alloc]
  refine Bool.eq_iff_iff.mpr ⟨fun heq => ?_, fun heq => ?_⟩
  · rw [← hs.equalAt hsize]
    exact equalAt_of_sameInside hsv hsw heq
  · exact equalAt_mono hsize (equalAt_of_sameInside hsv.symm hsw.symm heq)

/-! ## Sets -/

/-- What is equal to the first item is dropped, the rest is treated alike. -/
theorem foldl_distinct_cons (w : Value) (kept vs : List Value) :
    vs.foldl (fun kept v => if h.holds kept v then kept else kept ++ [v]) (w :: kept) =
      w :: (vs.filter fun v => decide (h.equal w v = false)).foldl
        (fun kept v => if h.holds kept v then kept else kept ++ [v]) kept := by
  induction vs generalizing kept with
  | nil => rfl
  | cons v vs ih =>
    rw [List.foldl_cons]
    cases hwv : h.equal w v with
    | true =>
      have hheld : h.holds (w :: kept) v = true := by rw [holds, List.any_cons, hwv, Bool.true_or]
      rw [hheld, if_pos rfl, ih, List.filter_cons_of_neg (by simp [hwv])]
    | false =>
      have hheld : h.holds (w :: kept) v = h.holds kept v := by
        rw [holds, List.any_cons, hwv, Bool.false_or]
        rfl
      rw [hheld, List.filter_cons_of_pos (by simp [hwv]), List.foldl_cons, ← ih]
      split <;> rfl

/-- A set keeps the items that equal none before. -/
theorem distinct_eq (vs : List Value) : h.distinct vs = vs.eraseDupsBy fun v w => h.equal w v := by
  induction hn : vs.length using Nat.strong_induction_on generalizing vs with
  | _ n ih =>
    cases vs with
    | nil => rw [List.eraseDupsBy_nil]; rfl
    | cons w vs =>
      have hlt : (vs.filter fun v => decide (h.equal w v = false)).length < n :=
        hn ▸ Nat.lt_succ_of_le (List.length_filter_le ..)
      rw [List.eraseDupsBy_cons, ← ih _ hlt _ rfl]
      exact foldl_distinct_cons w [] vs

/-! ## Maps -/

/-- The entries with keys that equal this one. -/
def withKey (h : Heap) (key : Value) (es : List (Value × Value)) : List (Value × Value) :=
  es.filter fun e => h.equal key e.1

/-- The entries with other keys. -/
def withoutKey (h : Heap) (key : Value) (es : List (Value × Value)) : List (Value × Value) :=
  es.filter fun e => !h.equal key e.1

/-- The keys where they occur first, each with the value that it has last. -/
def lastOfEach (h : Heap) : List (Value × Value) → List (Value × Value)
  | [] => []
  | e :: es =>
    (e.1, ((h.withKey e.1 es).getLast?.getD e).2) :: h.lastOfEach (h.withoutKey e.1 es)
termination_by es => es.length
decreasing_by exact Nat.lt_succ_of_le (List.length_filter_le ..)

/-- The first key takes the values of all keys that equal it, the rest is treated alike. -/
theorem foldl_putEntry_cons (e : Value × Value) (kept es : List (Value × Value)) :
    es.foldl (fun kept e => h.putEntry kept e.1 e.2) (e :: kept) =
      (e.1, ((h.withKey e.1 es).getLast?.getD e).2) ::
        (h.withoutKey e.1 es).foldl (fun kept e => h.putEntry kept e.1 e.2) kept := by
  induction es generalizing e kept with
  | nil => rfl
  | cons f es ih =>
    rw [List.foldl_cons, putEntry]
    cases hef : h.equal e.1 f.1 with
    | true =>
      have hwith : h.withKey e.1 (f :: es) = f :: h.withKey e.1 es := List.filter_cons_of_pos hef
      have hwithout : h.withoutKey e.1 (f :: es) = h.withoutKey e.1 es :=
        List.filter_cons_of_neg (by simp [hef])
      rw [if_pos rfl, ih, hwith, hwithout, List.getLast?_cons, Option.getD_some]
      cases (h.withKey e.1 es).getLast? <;> rfl
    | false =>
      have hwith : h.withKey e.1 (f :: es) = h.withKey e.1 es :=
        List.filter_cons_of_neg (by simp [hef])
      have hwithout : h.withoutKey e.1 (f :: es) = f :: h.withoutKey e.1 es :=
        List.filter_cons_of_pos (by simp [hef])
      rw [if_neg Bool.false_ne_true, ih, hwith, hwithout, List.foldl_cons]

/-- A map keeps the first of the keys that are equal, with the last of their values. -/
theorem foldl_putEntry (es : List (Value × Value)) :
    es.foldl (fun kept e => h.putEntry kept e.1 e.2) [] = h.lastOfEach es := by
  induction es using lastOfEach.induct h with
  | case1 => rw [lastOfEach]; rfl
  | case2 e es ih =>
    rw [lastOfEach, ← ih]
    exact foldl_putEntry_cons e [] es

/-! ## One after the other -/

theorem putEntry_congr {es : List (Value × Value)} {key : Value}
    (hes : ∀ e ∈ es, g.equal e.1 key = h.equal e.1 key) (x : Value) :
    g.putEntry es key x = h.putEntry es key x := by
  induction es with
  | nil => rfl
  | cons e es ih =>
    obtain ⟨he, hes⟩ := List.forall_mem_cons.mp hes
    rw [putEntry, putEntry, he, ih hes]

theorem holds_congr {vs : List Value} (hvs : ∀ x ∈ vs, g.equal x v = h.equal x v) :
    g.holds vs v = h.holds vs v := by
  refine Bool.eq_iff_iff.mpr ?_
  rw [holds, holds, List.any_eq_true, List.any_eq_true]
  exact exists_congr fun x => and_congr_right fun hx => by rw [hvs x hx]

/-- The newest cell is replaced as if it had been made so. -/
theorem put_alloc (c d : Cell) : (h.alloc c).2.put h.cells.size d = (h.alloc d).2 := by
  rw [put, alloc, alloc, Heap.mk.injEq]
  refine ⟨rfl, ?_⟩
  simp [Array.setIfInBounds, Array.set_push]

end Heap

end ExprLang
