import ExprLang.Proofs.Heap.Untangled
import ExprLang.Value.Coercion

/-! Readings that follow what values hold, and notice nothing of having been there before: the text of a
value and strict equality. They come to an end where nothing contains itself. -/

namespace ExprLang

namespace Heap

variable {h : Heap} {k : Kinds} {v w : Value} {m n : Nat}

/-! ## Readings to a depth -/

/-- The text of an entry. -/
def entryWithin? (read : Value → Option String) (e : Value × Value) : Option String := do
  let key ← read e.1
  let value ← read e.2
  return key ++ "=" ++ value

/-- The text of a value, unless more than `n` levels of it have to be read. -/
def displayWithin? (h : Heap) : Nat → Value → Option String
  | 0, _ => none
  | n + 1, v =>
    match v with
    | .list a => bracketed "[" "]" <$> (h.items a).mapM (h.displayWithin? n)
    | .set a => bracketed "[" "]" <$> (h.items a).mapM (h.displayWithin? n)
    | .array a => bracketed "[" "]" <$> (h.array a).2.mapM (h.displayWithin? n)
    | .map a =>
      bracketed "\x7b" "\x7d" <$> (h.entries a).mapM (entryWithin? (h.displayWithin? n))
    | v => some (h.displayAt 1 v)

/-- Items of lists of one length are compared in order, up to the first two that differ. -/
def eachWithin? {α : Type} (r : α → α → Option Bool) (xs ys : List α) : Option Bool :=
  if xs.length == ys.length then (xs.zip ys).allM fun p => r p.1 p.2 else some false

/-- For each item of a list a partner is looked for among as many others, up to the first that has
none. -/
def coversWithin? {α : Type} (r : α → α → Option Bool) (xs ys : List α) : Option Bool :=
  if xs.length == ys.length then xs.allM fun x => ys.anyM fun y => r y x else some false

/-- Keys are compared first, values only where the keys are equal. -/
def sameEntryWithin? (r : Value → Value → Option Bool) (f e : Value × Value) : Option Bool := do
  if ← r f.1 e.1 then r f.2 e.2 else return false

/-- Strict equality, unless more than `n` levels have to be compared. -/
def equalWithin? (h : Heap) : Nat → Value → Value → Option Bool
  | 0, _, _ => none
  | n + 1, v, w =>
    match v, w with
    | .list a, .list b =>
      if a == b then some true else eachWithin? (h.equalWithin? n) (h.items a) (h.items b)
    | .set a, .set b =>
      if a == b then some true else coversWithin? (h.equalWithin? n) (h.items a) (h.items b)
    | .map a, .map b =>
      if a == b then some true
      else coversWithin? (sameEntryWithin? (h.equalWithin? n)) (h.entries a) (h.entries b)
    | .array a, .array b =>
      if a == b then some true else eachWithin? (h.equalWithin? n) (h.array a).2 (h.array b).2
    | v, w => some (h.equalAt 1 v w)

/-! ## They come to an end where values nest no deeper -/

theorem eachWithin?_eq {α : Type} {r : α → α → Option Bool} {q : α → α → Bool} {xs ys : List α}
    (hr : ∀ x ∈ xs, ∀ y ∈ ys, r x y = some (q x y)) :
    eachWithin? r xs ys = some (pairwise q xs ys) := by
  have hpairwise : pairwise q xs ys =
      (xs.length == ys.length && (xs.zip ys).all fun p => q p.1 p.2) := by
    clear hr
    induction xs generalizing ys with
    | nil => cases ys <;> rfl
    | cons x xs ih => cases ys <;> simp [pairwise, ih, Bool.and_left_comm]
  rw [eachWithin?, hpairwise]
  cases xs.length == ys.length with
  | false => rfl
  | true =>
    exact allM_eq_some fun p hp => hr p.1 (List.of_mem_zip hp).1 p.2 (List.of_mem_zip hp).2

theorem coversWithin?_eq {α : Type} {r : α → α → Option Bool} {q : α → α → Bool} {xs ys : List α}
    (hr : ∀ x ∈ xs, ∀ y ∈ ys, r y x = some (q y x)) :
    coversWithin? r xs ys = some (xs.length == ys.length && xs.all fun x => ys.any fun y => q y x) := by
  rw [coversWithin?]
  cases xs.length == ys.length with
  | false => rfl
  | true => exact allM_eq_some fun x hx => anyM_eq_some fun y hy => hr x hx y hy

theorem Nests.entry {a : Address} {e : Value × Value} (hv : h.Nests (n + 1) (.map a))
    (he : e ∈ h.entries a) : h.Nests n e.1 ∧ h.Nests n e.2 :=
  ⟨hv _ (mem_contents_map he).1, hv _ (mem_contents_map he).2⟩

theorem displayWithin?_of_nests (hv : h.Nests n v) :
    h.displayWithin? n v = some (h.displayAt n v) := by
  induction n generalizing v with
  | zero => cases hv
  | succ n ih =>
    have hitems (vs : List Value) (hvs : ∀ w ∈ vs, h.Nests n w) :
        vs.mapM (h.displayWithin? n) = some (vs.map (h.displayAt n)) :=
      mapM_eq_some_map fun w hw => ih (hvs w hw)
    cases v with
    | list a | set a =>
      rw [displayWithin?, hitems (h.items a) hv]
      rfl
    | array a =>
      rw [displayWithin?, hitems (h.array a).2 hv]
      rfl
    | map a =>
      have hentry : ∀ e ∈ h.entries a, entryWithin? (h.displayWithin? n) e =
          some (h.displayAt n e.1 ++ "=" ++ h.displayAt n e.2) := by
        intro e he
        rw [entryWithin?, ih (hv.entry he).1, ih (hv.entry he).2]
        rfl
      rw [displayWithin?, mapM_eq_some_map hentry]
      rfl
    | _ => rfl

theorem nests_of_displayWithin? (hv : (h.displayWithin? n v).isSome = true) : h.Nests n v := by
  induction n generalizing v with
  | zero => cases hv
  | succ n ih =>
    cases v with
    | list a | set a | array a =>
      rw [displayWithin?, Option.map_eq_map, Option.isSome_map, isSome_mapM_iff] at hv
      exact fun w hw => ih (hv w hw)
    | map a =>
      rw [displayWithin?, Option.map_eq_map, Option.isSome_map, isSome_mapM_iff] at hv
      intro w hw
      obtain ⟨e, he, hw⟩ := List.mem_flatMap.mp hw
      have hentry := hv e he
      rw [entryWithin?] at hentry
      cases hkey : h.displayWithin? n e.1 with
      | none => simp [hkey] at hentry
      | some key =>
        cases hvalue : h.displayWithin? n e.2 with
        | none => simp [hkey, hvalue] at hentry
        | some value =>
          rcases List.mem_pair.mp hw with rfl | rfl
          · exact ih (by rw [hkey]; rfl)
          · exact ih (by rw [hvalue]; rfl)
    | _ => exact nofun

theorem equalWithin?_of_nests (hv : h.Nests n v ∨ h.Nests n w) :
    h.equalWithin? n v w = some (h.equalAt n v w) := by
  induction n generalizing v w with
  | zero => rcases hv with hv | hv <;> cases hv
  | succ n ih =>
    have hforth {x y : Value} (hx : x ∈ h.contents v) (hy : y ∈ h.contents w) :
        h.equalWithin? n x y = some (h.equalAt n x y) := ih (hv.imp (fun hv => hv x hx) fun hw => hw y hy)
    have hback {x y : Value} (hx : x ∈ h.contents v) (hy : y ∈ h.contents w) :
        h.equalWithin? n y x = some (h.equalAt n y x) :=
      ih (hv.symm.imp (fun hw => hw y hy) fun hv => hv x hx)
    cases v with
    | list a =>
      cases w with
      | list b =>
        have heach : eachWithin? (h.equalWithin? n) (h.items a) (h.items b) =
            some (pairwise (h.equalAt n) (h.items a) (h.items b)) :=
          eachWithin?_eq fun x hx y hy => hforth hx hy
        rw [equalWithin?, equalAt, heach]
        cases a == b <;> rfl
      | _ => rfl
    | set a =>
      cases w with
      | set b =>
        have hitem : ∀ x ∈ h.items a, ∀ y ∈ h.items b,
            h.equalWithin? n y x = some (h.equalAt n y x) := fun x hx y hy => hback hx hy
        rw [equalWithin?, equalAt, coversWithin?_eq hitem]
        cases a == b <;> rfl
      | _ => rfl
    | map a =>
      cases w with
      | map b =>
        have hentry : ∀ e ∈ h.entries a, ∀ f ∈ h.entries b,
            sameEntryWithin? (h.equalWithin? n) f e =
              some (h.equalAt n f.1 e.1 && h.equalAt n f.2 e.2) := by
          intro e he f hf
          obtain ⟨hkey, hvalue⟩ := mem_contents_map he
          obtain ⟨hkey', hvalue'⟩ := mem_contents_map hf
          rw [sameEntryWithin?, hback hkey hkey', hback hvalue hvalue']
          cases h.equalAt n f.1 e.1 <;> rfl
        rw [equalWithin?, equalAt, coversWithin?_eq hentry]
        cases a == b <;> rfl
      | _ => rfl
    | array a =>
      cases w with
      | array b =>
        have heach : eachWithin? (h.equalWithin? n) (h.array a).2 (h.array b).2 =
            some (pairwise (h.equalAt n) (h.array a).2 (h.array b).2) :=
          eachWithin?_eq fun x hx y hy => hforth hx hy
        rw [equalWithin?, equalAt, heach]
        cases a == b <;> rfl
      | _ => rfl
    | _ => cases w <;> rfl

/-! ## They come to an end where nothing contains itself -/

theorem Nests.edge (hv : h.Nests n v) (hw : w ∈ h.contents v) : ∃ m < n, h.Nests m w := by
  cases n with
  | zero => cases hv
  | succ n => exact ⟨n, Nat.lt_succ_self n, hv w hw⟩

theorem Nests.path (hv : h.Nests n v)
    (hw : Relation.TransGen (fun v w => w ∈ h.contents v) v w) : ∃ m < n, h.Nests m w := by
  induction hw with
  | single hw => exact hv.edge hw
  | tail _ hw ih =>
    obtain ⟨m, hm, hnests⟩ := ih
    obtain ⟨l, hl, hnests⟩ := hnests.edge hw
    exact ⟨l, hl.trans hm, hnests⟩

/-- Every level of a cycle would need one more below it. -/
theorem Nests.not_cycle (hv : h.Nests n v) :
    ¬Relation.TransGen (fun v w => w ∈ h.contents v) v v := by
  intro hcycle
  induction n using Nat.strong_induction_on with
  | h n ih =>
    obtain ⟨m, hm, hnests⟩ := hv.path hcycle
    exact ih m hm hnests

theorem Nests.acyclic (hv : h.Nests n v) : h.Acyclic v := by
  intro w hw
  rcases Relation.reflTransGen_iff_eq_or_transGen.mp hw with rfl | hw
  · exact hv.not_cycle
  · obtain ⟨m, -, hnests⟩ := hv.path hw
    exact hnests.not_cycle

/-- A value is displayed to an end exactly where nothing inside contains itself. -/
theorem display_ends_iff (hh : h.Grounded k) (hv : v.Grounded k) :
    (∃ n, (h.displayWithin? n v).isSome = true) ↔ h.Acyclic v := by
  constructor
  · rintro ⟨n, hn⟩
    exact (nests_of_displayWithin? hn).acyclic
  · intro ha
    exact ⟨_, Option.isSome_iff_exists.mpr ⟨_, displayWithin?_of_nests (ha.nests hh hv)⟩⟩

/-- The text that a value is converted to, if it takes no more than `n` levels. -/
def textWithin? (h : Heap) (n : Nat) : Value → Option String
  | .null => some ""
  | v => h.displayWithin? n v

/-- The fault of a conversion, if its message takes no more than `n` levels of the value. -/
def refusalWithin? (h : Heap) (n : Nat) (v : Value) (target : String) : Option Fault :=
  (h.displayWithin? n v).map fun text => .coercion text (h.typeName v) target

/-- All that is read from the value comes to an end: its text, also where it is converted to one or
cannot be converted, and comparisons from either side. -/
structure Readable (h : Heap) (v : Value) : Prop where
  display : ∃ n, h.displayWithin? n v = some (h.display v)
  text : ∃ n, h.textWithin? n v = some (Coercion.toText h v)
  refusal : ∀ target, ∃ n, h.refusalWithin? n v target = some (Coercion.refusal h v target)
  equal : ∀ w, ∃ n, h.equalWithin? n v w = some (h.equal v w) ∧
    h.equalWithin? n w v = some (h.equal w v)

theorem Acyclic.readable (hh : h.Grounded k) (hv : v.Grounded k) (ha : h.Acyclic v) :
    h.Readable v := by
  have hnests : h.Nests (h.cells.size + 1) v := ha.nests hh hv
  have hdisplay : h.displayWithin? (h.cells.size + 1) v = some (h.display v) :=
    displayWithin?_of_nests hnests
  refine ⟨⟨_, hdisplay⟩, ⟨h.cells.size + 1, ?_⟩, fun target => ⟨h.cells.size + 1, ?_⟩, fun w => ?_⟩
  · cases v with
    | null => rfl
    | _ => exact hdisplay
  · rw [refusalWithin?, hdisplay]
    rfl
  · exact ⟨_, equalWithin?_of_nests (.inl hnests), equalWithin?_of_nests (.inr hnests)⟩

end Heap

end ExprLang
