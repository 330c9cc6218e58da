import ExprLang.Proofs.Heap.Change
import ExprLang.Proofs.Lists
import ExprLang.Proofs.Number.Meant
import ExprLang.Value.Comparison

/-! Strict equality, one level of values after the other. -/

namespace ExprLang

/-- The cell of a list, a set, a map or an array. -/
def Value.cell? : Value → Option Address
  | .list a | .set a | .map a | .array a => some a
  | _ => none

/-! ## Lambdas and method expressions -/

theorem Closure.same_iff {f g : Closure} :
    f.same g = true ↔ f.params = g.params ∧ f.body = g.body := by
  rw [Closure.same, Bool.and_eq_true, beq_iff_eq, beq_iff_eq]

theorem Closure.same_symm {f g : Closure} (h : f.same g = true) : g.same f = true :=
  same_iff.mpr ⟨(same_iff.mp h).1.symm, (same_iff.mp h).2.symm⟩

theorem Closure.same_trans {e f g : Closure} (hef : e.same f = true) (hfg : f.same g = true) :
    e.same g = true :=
  same_iff.mpr ⟨(same_iff.mp hef).1.trans (same_iff.mp hfg).1,
    (same_iff.mp hef).2.trans (same_iff.mp hfg).2⟩

theorem MethodExpr.same_symm {m n : MethodExpr} (h : m.same n = true) : n.same m = true := by
  cases m <;> cases n <;> simp_all [same]

theorem MethodExpr.same_trans {l m n : MethodExpr} (hlm : l.same m = true)
    (hmn : m.same n = true) : l.same n = true := by
  cases l <;> cases m <;> cases n <;> simp_all [same]

namespace Heap

variable {g h : Heap} {v w : Value}

theorem pairwise_iff {α : Type} {r : α → α → Bool} {xs ys : List α} :
    pairwise r xs ys = true ↔ List.Forall₂ (fun x y => r x y = true) xs ys := by
  induction xs generalizing ys with
  | nil => cases ys <;> simp [pairwise]
  | cons x xs ih => cases ys <;> simp [pairwise, ih]

theorem all_any_iff {α : Type} {r : α → α → Bool} {xs ys : List α} :
    (xs.length == ys.length && xs.all fun x => ys.any fun y => r y x) = true ↔
      Covers (fun y x => r y x = true) xs ys := by
  simp [Covers]

/-- The values are equal where what they hold is related. -/
inductive Matches (h : Heap) (r : Value → Value → Prop) : Value → Value → Prop
  | leaf {v w : Value} (hv : v.cell? = none) (hw : w.cell? = none)
      (heq : ∀ (g : Heap) (n : Nat), g.equalAt (n + 1) v w = true) : Matches h r v w
  | self {v : Value} {a : Address} (hv : v.cell? = some a) : Matches h r v v
  | list {a b : Address} (hab : List.Forall₂ r (h.items a) (h.items b)) :
      Matches h r (.list a) (.list b)
  | set {a b : Address} (hab : Covers r (h.items a) (h.items b)) : Matches h r (.set a) (.set b)
  | map {a b : Address}
      (hab : Covers (fun f e => r f.1 e.1 ∧ r f.2 e.2) (h.entries a) (h.entries b)) :
      Matches h r (.map a) (.map b)
  | array {a b : Address} (hab : List.Forall₂ r (h.array a).2 (h.array b).2) :
      Matches h r (.array a) (.array b)

/-- Values without such a cell are compared without the heap. -/
theorem equalAt_leaf (hv : v.cell? = none) (g : Heap) (m n : Nat) (w : Value) :
    g.equalAt (m + 1) v w = h.equalAt (n + 1) v w := by
  cases v with
  | list | set | map | array => cases hv
  | _ => cases w <;> rfl

theorem leaf_of_equalAt {n : Nat} (hv : v.cell? = none) (heq : h.equalAt (n + 1) v w = true) :
    w.cell? = none := by
  cases w with
  | list | set | map | array => cases v <;> first | exact absurd heq Bool.false_ne_true | cases hv
  | _ => rfl

theorem equalAt_succ_iff {n : Nat} :
    h.equalAt (n + 1) v w = true ↔ h.Matches (fun x y => h.equalAt n x y = true) v w := by
  constructor
  · intro heq
    cases hv : v.cell? with
    | none =>
      exact .leaf hv (leaf_of_equalAt hv heq) fun g m => by rwa [equalAt_leaf hv g m n]
    | some a =>
      have hself {b : Address} (hab : (a == b) = true) : b = a := (beq_iff_eq.mp hab).symm
      cases v <;> cases hv <;> cases w <;> try exact absurd heq Bool.false_ne_true
      case list b =>
        rcases Bool.or_eq_true_iff.mp heq with hab | hab
        · rw [hself hab]
          exact .self rfl
        · exact .list (pairwise_iff.mp hab)
      case set b =>
        rcases Bool.or_eq_true_iff.mp heq with hab | hab
        · rw [hself hab]
          exact .self rfl
        · exact .set (all_any_iff.mp hab)
      case map b =>
        rcases Bool.or_eq_true_iff.mp heq with hab | hab
        · rw [hself hab]
          exact .self rfl
        · exact .map ((all_any_iff.mp hab).imp fun _ _ _ _ => Bool.and_eq_true_iff.mp)
      case array b =>
        rcases Bool.or_eq_true_iff.mp heq with hab | hab
        · rw [hself hab]
          exact .self rfl
        · exact .array (pairwise_iff.mp hab)
  · intro hm
    cases hm with
    | leaf _ _ heq => exact heq h n
    | self hv => cases v <;> cases hv <;> exact Bool.or_eq_true_iff.mpr (.inl (beq_self_eq_true _))
    | list hab => exact Bool.or_eq_true_iff.mpr (.inr (pairwise_iff.mpr hab))
    | set hab => exact Bool.or_eq_true_iff.mpr (.inr (all_any_iff.mpr hab))
    | map hab =>
      exact Bool.or_eq_true_iff.mpr (.inr (all_any_iff.mpr
        (hab.imp fun _ _ _ _ => Bool.and_eq_true_iff.mpr)))
    | array hab => exact Bool.or_eq_true_iff.mpr (.inr (pairwise_iff.mpr hab))

/-! ## What a value holds -/

/-- The values that a value holds. -/
def contents (h : Heap) : Value → List Value
  | .list a | .set a => h.items a
  | .map a => (h.entries a).flatMap fun e => [e.1, e.2]
  | .array a => (h.array a).2
  | _ => []

/-- The cell of the value is the same. -/
def SameCell (g h : Heap) (v : Value) : Prop := ∀ a, v.cell? = some a → g.cells[a]? = h.cells[a]?

theorem mem_contents_map {a : Address} {e : Value × Value} (he : e ∈ h.entries a) :
    e.1 ∈ h.contents (.map a) ∧ e.2 ∈ h.contents (.map a) := by
  constructor <;> exact List.mem_flatMap.mpr ⟨e, he, by simp⟩

/-- Values stay equal where their cells are the same and what they hold stays so. -/
theorem Matches.imp {r s : Value → Value → Prop} (hm : h.Matches r v w) (hv : g.SameCell h v)
    (hw : g.SameCell h w)
    (hrs : ∀ x y, x ∈ h.contents v ∧ y ∈ h.contents w ∨ x ∈ h.contents w ∧ y ∈ h.contents v →
      r x y → s x y) : g.Matches s v w := by
  cases hm with
  | leaf hv hw heq => exact .leaf hv hw heq
  | self ha => exact .self ha
  | @list a b hab =>
    refine .list ?_
    rw [items_of_cell (hv a rfl), items_of_cell (hw b rfl)]
    exact forall₂_imp_of_mem hab fun x hx y hy => hrs x y (.inl ⟨hx, hy⟩)
  | @set a b hab =>
    refine .set ?_
    rw [items_of_cell (hv a rfl), items_of_cell (hw b rfl)]
    exact hab.imp fun x hx y hy => hrs y x (.inr ⟨hy, hx⟩)
  | @map a b hab =>
    refine .map ?_
    rw [entries_of_cell (hv a rfl), entries_of_cell (hw b rfl)]
    exact hab.imp fun e he f hf hfe =>
      ⟨hrs f.1 e.1 (.inr ⟨(mem_contents_map hf).1, (mem_contents_map he).1⟩) hfe.1,
        hrs f.2 e.2 (.inr ⟨(mem_contents_map hf).2, (mem_contents_map he).2⟩) hfe.2⟩
  | @array a b hab =>
    refine .array ?_
    rw [array_of_cell (hv a rfl), array_of_cell (hw b rfl)]
    exact forall₂_imp_of_mem hab fun x hx y hy => hrs x y (.inl ⟨hx, hy⟩)

/-- Deeper comparisons find no less equal. -/
theorem equalAt_mono {m n : Nat} (hmn : m ≤ n) (heq : h.equalAt m v w = true) :
    h.equalAt n v w = true := by
  induction m generalizing n v w with
  | zero => cases heq
  | succ m ih =>
    obtain ⟨n, rfl⟩ := Nat.exists_eq_add_of_le' (Nat.lt_of_lt_of_le m.succ_pos hmn)
    exact equalAt_succ_iff.mpr ((equalAt_succ_iff.mp heq).imp (fun _ _ => rfl) (fun _ _ => rfl)
      fun x y _ => ih (Nat.le_of_succ_le_succ hmn))

/-! ## Equality is reflexive, symmetric and transitive -/

/-- Every value equals itself but NaN. -/
theorem equal_self (hv : Comparison.isNaN v = false) : h.equal v v = true := by
  cases v with
  | float | double => exact Binary.equal_self hv
  | decimal d => exact Decimal.equal_self d
  | lambda f => exact Closure.same_iff.mpr ⟨rfl, rfl⟩
  | method m => cases m <;> simp [equal, equalAt, MethodExpr.same]
  | _ => simp [equal, equalAt]

theorem leaf_symm {n : Nat} (hv : v.cell? = none) (heq : h.equalAt (n + 1) v w = true) :
    h.equalAt (n + 1) w v = true := by
  cases v <;> cases w <;> try exact absurd heq Bool.false_ne_true
  case null.null => rfl
  case float.float | double.double => exact Binary.equal_symm heq
  case decimal.decimal => exact Decimal.equal_symm heq
  case lambda.lambda => exact Closure.same_symm heq
  case method.method => exact MethodExpr.same_symm heq
  all_goals first
    | exact beq_iff_eq.mpr (beq_iff_eq.mp heq).symm
    | cases hv

/-- Equality is symmetric where that of what is held is, and where no two items of a set and no two
keys of a map have the same partner. -/
theorem Matches.symm {r : Value → Value → Prop} (hm : h.Matches r v w)
    (hr : ∀ x y, x ∈ h.contents v ∧ y ∈ h.contents w ∨ x ∈ h.contents w ∧ y ∈ h.contents v →
      r x y → r y x)
    (hset : ∀ a b, v = .set a → w = .set b →
      (h.items a).Pairwise fun x x' => ∀ y ∈ h.items b, r y x → ¬r y x')
    (hmap : ∀ a b, v = .map a → w = .map b →
      (h.entries a).Pairwise fun e e' => ∀ f ∈ h.entries b, r f.1 e.1 → ¬r f.1 e'.1) :
    h.Matches r w v := by
  cases hm with
  | leaf hv hw heq => exact .leaf hw hv fun g n => leaf_symm hv (heq g n)
  | self ha => exact .self ha
  | list hab =>
    exact .list (forall₂_imp_of_mem hab.flip fun y hy x hx => hr x y (.inl ⟨hx, hy⟩))
  | array hab =>
    exact .array (forall₂_imp_of_mem hab.flip fun y hy x hx => hr x y (.inl ⟨hx, hy⟩))
  | @set a b hab =>
    exact .set (hab.symm (fun x hx y hy => hr y x (.inr ⟨hy, hx⟩)) (hset a b rfl rfl))
  | @map a b hab =>
    refine .map (hab.symm (fun e he f hf hfe => ?_) ?_)
    · obtain ⟨hkey, hvalue⟩ := mem_contents_map he
      obtain ⟨hkey', hvalue'⟩ := mem_contents_map hf
      exact ⟨hr f.1 e.1 (.inr ⟨hkey', hkey⟩) hfe.1, hr f.2 e.2 (.inr ⟨hvalue', hvalue⟩) hfe.2⟩
    · exact (hmap a b rfl rfl).imp fun h f hf hfe hfe' => h f hf hfe.1 hfe'.1

theorem leaf_trans {n : Nat} {u : Value} (hu : u.cell? = none) (huv : h.equalAt (n + 1) u v = true)
    (hvw : h.equalAt (n + 1) v w = true) : h.equalAt (n + 1) u w = true := by
  cases u <;> cases v <;> try exact absurd huv Bool.false_ne_true
  all_goals cases w <;> try exact absurd hvw Bool.false_ne_true
  case null.null.null => rfl
  case float.float.float | double.double.double => exact Binary.equal_trans huv hvw
  case decimal.decimal.decimal => exact Decimal.equal_trans huv hvw
  case lambda.lambda.lambda => exact Closure.same_trans huv hvw
  case method.method.method => exact MethodExpr.same_trans huv hvw
  all_goals first
    | exact beq_iff_eq.mpr ((beq_iff_eq.mp huv).trans (beq_iff_eq.mp hvw))
    | cases hu

theorem Matches.trans {r : Value → Value → Prop} {u : Value}
    (hr : ∀ x y z, r x y → r y z → r x z) (huv : h.Matches r u v) (hvw : h.Matches r v w) :
    h.Matches r u w := by
  cases huv with
  | leaf hu hv huv =>
    cases hvw with
    | leaf _ hw hvw => exact .leaf hu hw fun g n => leaf_trans hu (huv g n) (hvw g n)
    | self ha => cases ha.symm.trans hv
    | _ => cases hv
  | self => exact hvw
  | list hab =>
    cases hvw with
    | leaf hv => cases hv
    | self => exact .list hab
    | list hbc => exact .list (forall₂_trans hr hab hbc)
  | set hab =>
    cases hvw with
    | leaf hv => cases hv
    | self => exact .set hab
    | set hbc => exact .set (hab.trans hr hbc)
  | map hab =>
    cases hvw with
    | leaf hv => cases hv
    | self => exact .map hab
    | map hbc =>
      exact .map (hab.trans (fun _ _ _ hef hfg => ⟨hr _ _ _ hef.1 hfg.1, hr _ _ _ hef.2 hfg.2⟩) hbc)
  | array hab =>
    cases hvw with
    | leaf hv => cases hv
    | self => exact .array hab
    | array hbc => exact .array (forall₂_trans hr hab hbc)

theorem equalAt_trans {n : Nat} {u : Value} (huv : h.equalAt n u v = true)
    (hvw : h.equalAt n v w = true) : h.equalAt n u w = true := by
  induction n generalizing u v w with
  | zero => cases huv
  | succ n ih =>
    rw [equalAt_succ_iff] at huv hvw ⊢
    exact huv.trans (fun _ _ _ => ih) hvw

end Heap

end ExprLang
