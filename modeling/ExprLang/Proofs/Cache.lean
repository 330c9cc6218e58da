import ExprLang.Cache

/-! Reclaimed entries leave late, but nobody can tell: a cache answers like a map of bounded size
from which they leave at once. -/

namespace ExprLang

/-- A map of bounded size that gives up its oldest entry for a new key beyond the capacity. The
entries stand in the order of their admission. -/
structure Fifo (κ α : Type) where
  capacity : Nat
  entries : List (κ × α)

namespace Fifo
variable {κ α : Type} [DecidableEq κ]

def empty (capacity : Nat) : Fifo κ α := ⟨capacity, []⟩

def get (m : Fifo κ α) (k : κ) : Option α := m.entries.lookup k

/-- Stores a value. A key that is there keeps its place in the order. -/
def insert (m : Fifo κ α) (k : κ) (a : α) : Fifo κ α :=
  if (m.get k).isSome then
    { m with entries := m.entries.map fun e => if e.1 = k then (k, a) else e }
  else if m.entries.length < m.capacity then { m with entries := m.entries ++ [(k, a)] }
  else { m with entries := (m.entries ++ [(k, a)]).tail }

def erase (m : Fifo κ α) (k : κ) : Fifo κ α :=
  { m with entries := m.entries.filter fun e => e.1 ≠ k }

def clear (m : Fifo κ α) : Fifo κ α := { m with entries := [] }

def keys (m : Fifo κ α) : List κ := m.entries.map (·.1)

end Fifo

/-! ## Commands -/

/-- What can be asked of a cache. A computation is given by the result that it has when it is run.
-/
inductive CacheCommand (κ α ε : Type) where
  | put (k : κ) (a : α)
  | putIfAbsent (k : κ) (a : α)
  | get (k : κ)
  | getOrCompute (k : κ) (r : Except ε α)
  | reclaim (k : κ)
  | reclaimAll
  | length

inductive CacheReply (α ε : Type) where
  | done
  | value (a : α)
  | found (a : Option α)
  /-- The computation failed. -/
  | failed (e : ε)
  | size (n : Nat)

/-- Carries out commands one after the other: the replies, and where that leads. -/
def carryOut {σ γ ρ : Type} (step : σ → γ → ρ × σ) (s : σ) : List γ → List ρ × σ
  | [] => ([], s)
  | c :: cs =>
    let (r, s) := step s c
    let (rs, s) := carryOut step s cs
    (r :: rs, s)

variable {κ α ε : Type} [DecidableEq κ]

def Cache.step (c : Cache κ α) : CacheCommand κ α ε → CacheReply α ε × Cache κ α
  | .put k a => (.value a, c.put k a)
  | .putIfAbsent k a =>
    let (b, c) := c.putIfAbsent k a
    (.value b, c)
  | .get k =>
    let (found, c) := c.get k
    (.found found, c)
  | .getOrCompute k r =>
    match c.getOrCompute k fun _ => r with
    | (.ok a, c) => (.value a, c)
    | (.error e, c) => (.failed e, c)
  | .reclaim k => (.done, c.reclaim k)
  | .reclaimAll => (.done, c.reclaimAll)
  | .length =>
    let (n, c) := c.length
    (.size n, c)

/-- Every command takes effect at once, and a computation that fails stores nothing. -/
def Fifo.step (m : Fifo κ α) : CacheCommand κ α ε → CacheReply α ε × Fifo κ α
  | .put k a => (.value a, m.insert k a)
  | .putIfAbsent k a =>
    match m.get k with
    | some b => (.value b, m)
    | none => (.value a, m.insert k a)
  | .get k => (.found (m.get k), m)
  | .getOrCompute k r =>
    match m.get k, r with
    | some b, _ => (.value b, m)
    | none, .ok a => (.value a, m.insert k a)
    | none, .error e => (.failed e, m)
  | .reclaim k => (.done, m.erase k)
  | .reclaimAll => (.done, m.clear)
  | .length => (.size m.entries.length, m)

/-! ## The eager map -/

namespace Fifo

variable {m : Fifo κ α} {k : κ} {a : α}

theorem get_eq_none_iff : m.get k = none ↔ k ∉ m.keys := by
  rw [get, List.lookup_eq_none_iff, keys, List.mem_map]
  grind

theorem insert_of_mem (hk : k ∈ m.keys) :
    m.insert k a = { m with entries := m.entries.map fun e => if e.1 = k then (k, a) else e } := by
  have hg : (m.get k).isSome := Option.isSome_iff_ne_none.mpr fun h => get_eq_none_iff.mp h hk
  rw [insert, if_pos hg]

theorem insert_of_not_mem (hk : k ∉ m.keys) :
    m.insert k a =
      if m.entries.length < m.capacity then { m with entries := m.entries ++ [(k, a)] }
      else { m with entries := (m.entries ++ [(k, a)]).tail } := by
  rw [insert, get_eq_none_iff.mpr hk, if_neg nofun]

theorem get_erase (m : Fifo κ α) (k : κ) : (m.erase k).get k = none := by
  refine get_eq_none_iff.mpr ?_
  simp [erase, keys]

theorem lookup_cons_of_ne {e : κ × α} (es : List (κ × α)) (he : e.1 ≠ k) :
    (e :: es).lookup k = es.lookup k := by
  have hne : (k == e.1) = false := beq_eq_false_iff_ne.mpr he.symm
  rw [List.lookup_cons, hne]

theorem get_insert_of_mem (hk : k ∈ m.keys) : (m.insert k a).get k = some a := by
  rw [insert_of_mem hk]
  obtain ⟨capacity, entries⟩ := m
  simp only [keys, get] at hk ⊢
  induction entries with
  | nil => simp at hk
  | cons e es ih =>
    by_cases he : e.1 = k
    · simp [he]
    · have hmem : k ∈ es.map (·.1) := by
        simpa [Ne.symm he] using hk
      rw [List.map_cons, if_neg he, lookup_cons_of_ne _ he]
      exact ih hmem

theorem get_insert_of_not_mem (hk : k ∉ m.keys) (hroom : 0 < m.capacity) :
    (m.insert k a).get k = some a := by
  have hnone : m.entries.lookup k = none := get_eq_none_iff.mpr hk
  have hlast : (m.entries ++ [(k, a)]).lookup k = some a := by
    simp [List.lookup_append, hnone]
  rw [insert_of_not_mem hk]
  split
  · exact hlast
  · next hfull =>
    obtain ⟨capacity, entries⟩ := m
    cases entries with
    | nil => exact absurd hroom hfull
    | cons e es =>
      -- The oldest entry leaves, and it is not the new one.
      have he : e.1 ≠ k := fun he => hk (by simp [keys, he])
      rw [List.cons_append, lookup_cons_of_ne _ he] at hlast
      exact hlast

/-- A value can be read back once it is stored, unless there is no room for any. -/
theorem get_insert (hb : m.entries.length ≤ m.capacity) :
    (m.insert k a).get k = if m.capacity = 0 then none else some a := by
  split
  · next hzero =>
    have hnil : m.entries = [] := List.length_eq_zero_iff.mp (by omega)
    have hk : k ∉ m.keys := by simp [keys, hnil]
    rw [insert_of_not_mem hk, if_neg (by omega), hnil]
    rfl
  · next hroom =>
    by_cases hk : k ∈ m.keys
    · exact get_insert_of_mem hk
    · exact get_insert_of_not_mem hk (Nat.pos_of_ne_zero hroom)

theorem step_capacity (m : Fifo κ α) (command : CacheCommand κ α ε) :
    (m.step command).2.capacity = m.capacity := by
  have hinsert (k a) : (m.insert k a).capacity = m.capacity := by
    unfold insert
    repeat' split
    all_goals rfl
  cases command with
  | put k a => exact hinsert k a
  | putIfAbsent k a =>
    simp only [step]
    split
    · rfl
    · exact hinsert k a
  | getOrCompute k r =>
    simp only [step]
    split
    · rfl
    · exact hinsert k _
    · rfl
  | get | reclaim | reclaimAll | length => rfl

theorem carryOut_capacity (m : Fifo κ α) (commands : List (CacheCommand κ α ε)) :
    (carryOut step m commands).2.capacity = m.capacity := by
  induction commands generalizing m with
  | nil => rfl
  | cons command commands ih => exact (ih _).trans (step_capacity m command)

/-- Only the command for the length is answered with one. -/
theorem size_eq {command : CacheCommand κ α ε} {n : Nat} (h : .size n = (m.step command).1) :
    n = m.entries.length := by
  cases command with
  | length => exact CacheReply.size.inj h
  | putIfAbsent k a =>
    simp only [step] at h
    split at h <;> cases h
  | getOrCompute k r =>
    simp only [step] at h
    split at h <;> cases h
  | put | get | reclaim | reclaimAll => cases h

end Fifo

/-! ## The invariant -/

namespace Cache

variable {c : Cache κ α} {m : Fifo κ α} {k : κ} {a : α}

/-- The cache is the map but for entries that are still to leave: without those, its entries and its
order of admission are those of the map. -/
structure Mirrors (c : Cache κ α) (m : Fifo κ α) : Prop where
  capacity : c.capacity = m.capacity
  counter : c.pending = c.reclaimed.length
  live : c.entries.filter (fun e => e.1 ∉ c.reclaimed) = m.entries
  order : c.admitted.filter (fun k => k ∉ c.reclaimed) = m.keys
  distinct : m.keys.Nodup
  bounded : m.entries.length ≤ m.capacity

/-- The cache that is the map and where no entry is to leave. -/
def settled (m : Fifo κ α) : Cache κ α := ⟨m.capacity, m.entries, m.keys, [], 0⟩

theorem mirrors_empty (n : Nat) : (empty n : Cache κ α).Mirrors (.empty n) :=
  ⟨rfl, rfl, rfl, rfl, List.nodup_nil, Nat.zero_le n⟩

theorem mirrors_settled (hd : m.keys.Nodup) (hb : m.entries.length ≤ m.capacity) :
    (settled m).Mirrors m :=
  ⟨rfl, rfl, by simp [settled], by simp [settled], hd, hb⟩

/-- Draining leaves just the map. -/
theorem Mirrors.drain_eq (h : c.Mirrors m) : c.drain = settled m := by
  have hlive := h.live
  have horder := h.order
  unfold drain
  split
  · next hp =>
    have hr : c.reclaimed = [] := List.length_eq_zero_iff.mp (h.counter.symm.trans hp)
    simp only [hr, List.not_mem_nil, not_false_eq_true, decide_true, List.filter_eq_self.mpr,
      implies_true] at hlive horder
    show (⟨c.capacity, c.entries, c.admitted, c.reclaimed, c.pending⟩ : Cache κ α) = _
    rw [h.capacity, hlive, horder, hr, hp, settled]
  · rw [h.capacity, hlive, horder, settled]

theorem find?_settled (m : Fifo κ α) (k : κ) : (settled m).find? k = m.get k := by
  unfold find? Fifo.get
  show (m.entries.find? (·.1 = k)).map (·.2) = m.entries.lookup k
  induction m.entries with
  | nil => rfl
  | cons e es ih =>
    by_cases he : e.1 = k
    · rw [List.find?_cons_of_pos (by simpa using he), List.lookup_cons, he, beq_self_eq_true]
      rfl
    · have hne : (k == e.1) = false := beq_eq_false_iff_ne.mpr fun h => he h.symm
      rw [List.find?_cons_of_neg (by simpa using he), List.lookup_cons, hne]
      exact ih

/-! ## Insertions -/

omit [DecidableEq κ] in
/-- A new key: where there is no room for it, the oldest key is reclaimed. -/
theorem enter_settled (m : Fifo κ α) (k : κ) (a : α) :
    (settled m).enter k a =
      if m.entries.length < m.capacity then settled { m with entries := m.entries ++ [(k, a)] }
      else
        ⟨m.capacity, m.entries ++ [(k, a)], (m.keys ++ [k]).tail, (m.keys ++ [k]).take 1, 1⟩ := by
  obtain ⟨capacity, entries⟩ := m
  cases entries with
  | nil => cases capacity <;> rfl
  | cons e es =>
    have hlength : (es.map (·.1) ++ [k]).length = es.length + 1 := by simp
    simp only [enter, settled, Fifo.keys, List.map_cons, List.cons_append, List.length_cons,
      hlength]
    by_cases hroom : es.length + 1 < capacity
    · rw [if_neg (by omega), if_pos hroom]
      simp
    · rw [if_pos (by omega), if_neg hroom]
      rfl

theorem mirrors_enter (h : c.Mirrors m) (hk : k ∉ m.keys) :
    ((settled m).enter k a).Mirrors (m.insert k a) := by
  have hd : (m.keys ++ [k]).Nodup := by
    refine List.nodup_append.mpr ⟨h.distinct, by simp, ?_⟩
    rintro a ha _ hb rfl
    exact hk (List.mem_singleton.mp hb ▸ ha)
  have hkeys : (m.entries ++ [(k, a)]).map (·.1) = m.keys ++ [k] := by simp [Fifo.keys]
  have hb := h.bounded
  rw [enter_settled, Fifo.insert_of_not_mem hk]
  split
  · next hroom =>
    refine mirrors_settled ?_ ?_
    · rw [Fifo.keys, hkeys]
      exact hd
    · simpa using Nat.succ_le_of_lt hroom
  · next hroom =>
    -- The oldest of all entries leaves; no other entry has its key.
    generalize hall : m.entries ++ [(k, a)] = all at hkeys
    cases all with
    | nil => simp at hall
    | cons e es =>
      rw [← hkeys] at hd ⊢
      obtain ⟨he, hes⟩ := List.nodup_cons.mp hd
      have hlength : m.entries.length + 1 = es.length + 1 := by
        have := congrArg List.length hall
        simpa using this
      have hrest : ∀ f ∈ es, f.1 ≠ e.1 := fun f hf hfe =>
        he (List.mem_map.mpr ⟨f, hf, hfe⟩)
      refine ⟨rfl, rfl, ?_, ?_, hes, ?_⟩
      · simpa using hrest
      · simpa [Fifo.keys] using fun f hf => hrest f hf
      · show es.length ≤ m.capacity
        omega

theorem mirrors_put (h : c.Mirrors m) : (c.put k a).Mirrors (m.insert k a) := by
  simp only [put, h.drain_eq, find?_settled]
  by_cases hk : k ∈ m.keys
  · have hg : (m.get k).isSome :=
      Option.isSome_iff_ne_none.mpr fun h => Fifo.get_eq_none_iff.mp h hk
    have hkeys : ({ m with entries := m.entries.map fun e => if e.1 = k then (k, a) else e } :
        Fifo κ α).keys = m.keys := by
      simp only [Fifo.keys, List.map_map]
      refine List.map_congr_left fun e _ => ?_
      grind
    rw [if_pos hg, Fifo.insert_of_mem hk]
    have hm := mirrors_settled (hkeys ▸ h.distinct) (by simpa using h.bounded)
    rw [settled, hkeys] at hm
    exact hm
  · rw [Fifo.get_eq_none_iff.mpr hk, if_neg nofun]
    exact mirrors_enter h hk

theorem mirrors_drain (h : c.Mirrors m) : c.drain.Mirrors m := by
  rw [h.drain_eq]
  exact mirrors_settled h.distinct h.bounded

theorem Mirrors.get_eq (h : c.Mirrors m) : c.get k = (m.get k, c.drain) := by
  rw [get, h.drain_eq, find?_settled]

theorem Mirrors.length_eq (h : c.Mirrors m) : c.length = (m.entries.length, c.drain) := by
  rw [length, h.drain_eq]
  rfl

/-- A value that is there stays. -/
theorem Mirrors.putIfAbsent_of_get (h : c.Mirrors m) {b : α} (hb : m.get k = some b) :
    c.putIfAbsent k a = (b, c.drain) := by
  simp only [putIfAbsent, h.drain_eq, find?_settled, hb]

theorem Mirrors.putIfAbsent_of_none (h : c.Mirrors m) (hk : m.get k = none) :
    ∃ c' : Cache κ α, c.putIfAbsent k a = (a, c') ∧ c'.Mirrors (m.insert k a) := by
  refine ⟨(settled m).enter k a, ?_, mirrors_enter h (Fifo.get_eq_none_iff.mp hk)⟩
  simp only [putIfAbsent, h.drain_eq, find?_settled, hk]

/-! ## Reclaiming -/

/-- The entries of the queued keys are gone for good, at once. -/
theorem mirrors_enqueue (h : c.Mirrors m) (ks : List κ) :
    (c.enqueue ks).Mirrors { m with entries := m.entries.filter fun e => e.1 ∉ ks } := by
  have hsub : (m.entries.filter fun e => e.1 ∉ ks).Sublist m.entries := List.filter_sublist
  refine ⟨h.capacity, rfl, ?_, ?_, h.distinct.sublist (hsub.map _),
    Nat.le_trans hsub.length_le h.bounded⟩
  · rw [← h.live]
    simp [enqueue, List.filter_filter, and_comm]
  · have horder := congrArg (List.filter fun k => k ∉ ks) h.order
    rw [Fifo.keys, List.filter_map] at horder
    rw [Fifo.keys]
    refine Eq.trans ?_ horder
    simp [enqueue, List.filter_filter, and_comm]

/-- A key that has no entry, not even one that is to leave, is no key of the map. -/
theorem Mirrors.not_mem_keys (h : c.Mirrors m) (hk : c.find? k = none) : k ∉ m.keys := by
  rw [Fifo.keys, ← h.live]
  intro hmem
  obtain ⟨e, he, rfl⟩ := List.mem_map.mp hmem
  have hnone := List.find?_eq_none.mp (Option.map_eq_none_iff.mp hk) e (List.mem_filter.mp he).1
  simp at hnone

theorem mirrors_reclaim (h : c.Mirrors m) : (c.reclaim k).Mirrors (m.erase k) := by
  unfold reclaim
  split
  · have he : m.erase k = { m with entries := m.entries.filter fun e => e.1 ∉ [k] } := by
      simp [Fifo.erase]
    rw [he]
    exact mirrors_enqueue h [k]
  · next hnone =>
    have hk := h.not_mem_keys (Option.not_isSome_iff_eq_none.mp hnone)
    have he : m.erase k = m := by
      have hkeep : ∀ e ∈ m.entries, e.1 ≠ k := fun e he hek => hk (List.mem_map.mpr ⟨e, he, hek⟩)
      rw [Fifo.erase, List.filter_eq_self.mpr (by simpa using hkeep)]
    rw [he]
    exact h

/-- Also the keys of entries that were to leave already are queued: again, to no effect. -/
theorem mirrors_reclaimAll (h : c.Mirrors m) : c.reclaimAll.Mirrors m.clear := by
  have he : m.clear =
      { m with entries := m.entries.filter fun e => e.1 ∉ c.entries.map (·.1) } := by
    rw [Fifo.clear, eq_comm]
    congr 1
    refine List.filter_eq_nil_iff.mpr fun e hmem => ?_
    rw [← h.live] at hmem
    have : e.1 ∈ c.entries.map (·.1) := List.mem_map.mpr ⟨e, (List.mem_filter.mp hmem).1, rfl⟩
    simpa using this
  rw [he]
  exact mirrors_enqueue h _

/-! ## Runs -/

/-- One command: the same answer on both sides, which stay together. -/
theorem mirrors_step (h : c.Mirrors m) (command : CacheCommand κ α ε) :
    (c.step command).1 = (m.step command).1 ∧ (c.step command).2.Mirrors (m.step command).2 := by
  have hd := mirrors_drain h
  cases command with
  | put k a => exact ⟨rfl, mirrors_put h⟩
  | putIfAbsent k a =>
    simp only [step, Fifo.step]
    cases hk : m.get k with
    | some b =>
      rw [h.putIfAbsent_of_get hk]
      exact ⟨rfl, hd⟩
    | none =>
      obtain ⟨c', hc', hm⟩ := h.putIfAbsent_of_none (a := a) hk
      rw [hc']
      exact ⟨rfl, hm⟩
  | get k =>
    simp only [step, Fifo.step, h.get_eq, true_and]
    exact hd
  | getOrCompute k r =>
    simp only [step, Fifo.step, getOrCompute, h.get_eq]
    cases hk : m.get k with
    | some b => exact ⟨rfl, hd⟩
    | none =>
      cases r with
      | error e => exact ⟨rfl, hd⟩
      | ok a =>
        obtain ⟨c', hc', hm⟩ := hd.putIfAbsent_of_none (a := a) hk
        simp only [hc', true_and]
        exact hm
  | reclaim k => exact ⟨rfl, mirrors_reclaim h⟩
  | reclaimAll => exact ⟨rfl, mirrors_reclaimAll h⟩
  | length =>
    simp only [step, Fifo.step, h.length_eq, true_and]
    exact hd

theorem mirrors_carryOut (h : c.Mirrors m) (commands : List (CacheCommand κ α ε)) :
    (carryOut step c commands).1 = (carryOut Fifo.step m commands).1 ∧
      (carryOut step c commands).2.Mirrors (carryOut Fifo.step m commands).2 := by
  induction commands generalizing c m with
  | nil => exact ⟨rfl, h⟩
  | cons command commands ih =>
    obtain ⟨hreply, hm⟩ := mirrors_step h command
    obtain ⟨hreplies, hrun⟩ := ih hm
    refine ⟨?_, hrun⟩
    simp only [carryOut, hreply, hreplies]

theorem size_le_capacity (h : c.Mirrors m) (commands : List (CacheCommand κ α ε)) {n : Nat}
    (hn : .size n ∈ (carryOut step c commands).1) : n ≤ m.capacity := by
  induction commands generalizing c m with
  | nil => cases hn
  | cons command commands ih =>
    obtain ⟨hreply, hm⟩ := mirrors_step h command
    obtain hfirst | hlater := List.mem_cons.mp hn
    · exact Fifo.size_eq (hfirst.trans hreply) ▸ h.bounded
    · exact Fifo.step_capacity m command ▸ ih hm hlater

/-- A cache answers like a map from which entries leave at once: a reclaimed one, and the oldest one
where a new key is beyond the capacity. Its length never exceeds the capacity, and an entry that is
stored when its key was reclaimed, however often, does not leave with the next operation. -/
theorem replies_eq_eager (capacity : Nat) (commands : List (CacheCommand κ α ε)) :
    let run := carryOut step (empty capacity : Cache κ α) commands
    run.1 = (carryOut Fifo.step (.empty capacity) commands).1 ∧
      (∀ n, .size n ∈ run.1 → n ≤ capacity) ∧
      ∀ k a,
        ((run.2.put k a).get k).1 = (if capacity = 0 then none else some a) ∧
          (((run.2.reclaim k).putIfAbsent k a).2.get k).1 =
            if capacity = 0 then none else some a := by
  obtain ⟨hreplies, hm⟩ := mirrors_carryOut (mirrors_empty capacity) commands
  refine ⟨hreplies, fun n hn => size_le_capacity (mirrors_empty capacity) commands hn,
    fun k a => ⟨?_, ?_⟩⟩
  · have hput := mirrors_put hm (k := k) (a := a)
    rw [hput.get_eq, Fifo.get_insert hm.bounded, Fifo.carryOut_capacity]
    rfl
  · have hreclaim := mirrors_reclaim hm (k := k)
    obtain ⟨c', hc', hput⟩ := hreclaim.putIfAbsent_of_none (a := a) (Fifo.get_erase _ k)
    rw [hc', hput.get_eq, Fifo.get_insert hreclaim.bounded]
    show (if (carryOut Fifo.step _ commands).2.capacity = 0 then none else some a) = _
    rw [Fifo.carryOut_capacity]
    rfl

end Cache

end ExprLang
