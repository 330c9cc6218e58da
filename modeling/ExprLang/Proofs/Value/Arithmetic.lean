import ExprLang.Proofs.Number.Quotient
import ExprLang.Proofs.Value.Atom
import ExprLang.Proofs.Value.Exact
import ExprLang.Value.Arithmetic

/-! Sums, differences and products belong to the wider of the operands' families, and of exact
operands they are exact there. Quotients of decimals are rounded half up. No case is left over that an
operation does not expect. -/

namespace ExprLang

/-- A result stands for a number: an integer of 64 bits modulo `2 ^ 64`, any other exactly. -/
def Value.Holds (r : Value) (q : ℚ) : Prop :=
  match r with
  | .long n => ∃ z : Int, q = z ∧ n.toInt = z.bmod (2 ^ 64)
  | r => r.exact? = some q

namespace Arithmetic
open Comparison (isDecimal isBig)
variable {h : Heap} {o : Operation} {f : ℚ → ℚ → ℚ} {a b v r s : Value} {x y q : ℚ}

/-! ## Families -/

/-- The families of operands: integers of 64 bits for null, characters and texts that do not look
like floating numbers. -/
inductive Ranks : Value → Family → Prop where
  | null : Ranks .null .word
  | char (c : Char) : Ranks (.char c) .word
  | byte (n : Int8) : Ranks (.byte n) .word
  | short (n : Int16) : Ranks (.short n) .word
  | int (n : Int32) : Ranks (.int n) .word
  | long (n : Int64) : Ranks (.long n) .word
  | integerText (s : String) (hs : Coercion.isFloatText s = false) : Ranks (.text s) .word
  | bigInt (n : Int) : Ranks (.bigInt n) .big
  | float (x : Single) : Ranks (.float x) .floating
  | double (x : Double) : Ranks (.double x) .floating
  | floatText (s : String) (hs : Coercion.isFloatText s = true) : Ranks (.text s) .floating
  | decimal (d : Decimal) : Ranks (.decimal d) .decimal

/-- The family of a result. -/
def resultFamily? : Value → Option Family
  | .long _ => some .word
  | .bigInt _ => some .big
  | .double _ => some .floating
  | .decimal _ => some .decimal
  | _ => none

/-- The result is of the wider of the operands' families. -/
def Widest (a b r : Value) : Prop :=
  ∃ k l m, Ranks a k ∧ Ranks b l ∧ resultFamily? r = some m ∧ m.level = max k.level l.level

theorem join_level (k l : Family) : (k.join l).level = max k.level l.level := by
  cases k <;> cases l <;> rfl

theorem join_comm (k l : Family) : k.join l = l.join k := by
  cases k <;> cases l <;> rfl

theorem join_eq_word {k l : Family} : k.join l = .word → k = .word ∧ l = .word := by
  cases k <;> cases l <;> decide

theorem join_eq_big {k l : Family} : k.join l = .big → k ≠ .decimal ∧ l ≠ .decimal := by
  cases k <;> cases l <;> decide

theorem join_eq_floating {k l : Family} : k.join l = .floating → k = .floating ∨ l = .floating := by
  cases k <;> cases l <;> decide

theorem ranks_of_isOperand (hv : isOperand v = true) : Ranks v (family v) := by
  cases v with
  | text s =>
    simp only [family]
    split
    · next hs => exact .floatText s hs
    · next hs => exact .integerText s (by simpa using hs)
  | null | char | byte | short | int | long | bigInt | float | double | decimal => constructor
  | _ => cases hv

theorem run_family (k : Family) :
    ResultIn (fun r => resultFamily? r = some k) (o.run h k a b) := by
  cases k <;> simp [Operation.run, resultFamily?]

/-- A result under the guard: zero for two nulls, or the result itself for operands. -/
theorem guarded_eq_ok {result : Except Fault Value} (hr : guarded h a b result = .ok r) :
    a.isNull = true ∧ b.isNull = true ∧ r = .long 0 ∨
      isOperand a = true ∧ isOperand b = true ∧ result = .ok r := by
  unfold guarded checkOperand at hr
  split at hr
  · next hn =>
    rw [Bool.and_eq_true] at hn
    exact .inl ⟨hn.1, hn.2, (Except.ok.inj hr).symm⟩
  · split at hr
    · next ha =>
      split at hr
      · next hb => exact .inr ⟨ha, hb, hr⟩
      · cases hr
    · cases hr

theorem family_of_apply (hr : o.apply h a b = .ok r) : resultFamily? r = some (common a b) := by
  obtain ⟨ha, hb, rfl⟩ | ⟨-, -, hr⟩ := guarded_eq_ok hr
  · cases a <;> cases ha
    cases b <;> cases hb
    rfl
  · exact run_family _ r hr

theorem isOperand_of_apply (hr : o.apply h a b = .ok r) :
    isOperand a = true ∧ isOperand b = true := by
  obtain ⟨ha, hb, -⟩ | ⟨ha, hb, -⟩ := guarded_eq_ok hr
  · cases a <;> cases ha
    cases b <;> cases hb
    exact ⟨rfl, rfl⟩
  · exact ⟨ha, hb⟩

theorem widest_of_apply (hr : o.apply h a b = .ok r) : Widest a b r :=
  have hops := isOperand_of_apply hr
  ⟨_, _, _, ranks_of_isOperand hops.1, ranks_of_isOperand hops.2, family_of_apply hr,
    join_level _ _⟩

/-! ## Exact operands -/

theorem isOperand_of_amount? (hv : v.amount? = some x) : isOperand v = true := by
  cases v <;> first | rfl | cases hv

theorem isDecimal_of_family (hf : family v ≠ .decimal) : isDecimal v = false := by
  cases v with
  | decimal => exact absurd rfl hf
  | _ => rfl

theorem isBig_of_family (hf : family v = .word) : isBig v = false := by
  cases v with
  | bigInt => cases hf
  | _ => rfl

theorem family_ne_floating (hv : v.amount? = some x) : family v ≠ .floating := by
  cases v with
  | text | float | double => cases hv
  | _ => exact nofun

/-- Both operands as numbers of a family that keeps what they stand for. -/
inductive Kept (h : Heap) (a b : Value) : ℚ → ℚ → Family → Prop where
  | word {m n : Int64} (hm : Coercion.toTarget h Coercion.long a = .ok m)
      (hn : Coercion.toTarget h Coercion.long b = .ok n) : Kept h a b m.toInt n.toInt .word
  | big {m n : Int} (hm : Coercion.toTarget h Coercion.big a = .ok m)
      (hn : Coercion.toTarget h Coercion.big b = .ok n) : Kept h a b m n .big
  | decimal {d e : Decimal} (hd : Coercion.toTarget h Coercion.decimal a = .ok d)
      (he : Coercion.toTarget h Coercion.decimal b = .ok e) : Kept h a b d.meant e.meant .decimal

/-- The family of exact operands is wide enough for both. -/
theorem kept_of_amounts (ha : a.amount? = some x) (hb : b.amount? = some y) :
    Kept h a b x y (common a b) := by
  cases hk : common a b with
  | word =>
    obtain ⟨hka, hkb⟩ := join_eq_word hk
    obtain ⟨m, hm, rfl⟩ := Coercion.toTarget_long_exact (h := h) ha
      (isDecimal_of_family (by rw [hka]; decide)) (isBig_of_family hka)
    obtain ⟨n, hn, rfl⟩ := Coercion.toTarget_long_exact (h := h) hb
      (isDecimal_of_family (by rw [hkb]; decide)) (isBig_of_family hkb)
    exact .word hm hn
  | big =>
    obtain ⟨hka, hkb⟩ := join_eq_big hk
    obtain ⟨m, hm, rfl⟩ := Coercion.toTarget_big_exact (h := h) ha (isDecimal_of_family hka)
    obtain ⟨n, hn, rfl⟩ := Coercion.toTarget_big_exact (h := h) hb (isDecimal_of_family hkb)
    exact .big hm hn
  | floating =>
    exact ((join_eq_floating hk).elim (family_ne_floating ha) (family_ne_floating hb)).elim
  | decimal =>
    obtain ⟨d, hd, rfl⟩ := Coercion.toTarget_decimal_exact (h := h) ha
    obtain ⟨e, he, rfl⟩ := Coercion.toTarget_decimal_exact (h := h) hb
    exact .decimal hd he

theorem both_eq {α : Type} {t : Coercion.Target α} {m n : α} (hm : Coercion.toTarget h t a = .ok m)
    (hn : Coercion.toTarget h t b = .ok n) : both h t a b = .ok (m, n) := by
  rw [both, hm, hn]
  rfl

/-- What an operation does to exact operands in each family, but for the floating one. -/
structure Operation.Computes (o : Operation) (f : ℚ → ℚ → ℚ) : Prop where
  onWords (m n : Int64) : ∃ z : Int, f m.toInt n.toInt = z ∧ (o.onWords m n).toInt = z.bmod (2 ^ 64)
  onBig (m n : Int) : o.onBig m n = f m n
  onDecimal (d e : Decimal) : (o.onDecimal d e).meant = f d.meant e.meant
  zero : f 0 0 = 0

theorem run_exact {k : Family} (ho : o.Computes f) (hk : Kept h a b x y k) :
    ∃ r, o.run h k a b = .ok r ∧ r.Holds (f x y) := by
  unfold Operation.run
  cases hk with
  | @word m n hm hn => exact ⟨.long (o.onWords m n), by rw [both_eq hm hn]; rfl, ho.onWords m n⟩
  | @big m n hm hn =>
    exact ⟨.bigInt (o.onBig m n), by rw [both_eq hm hn]; rfl, congrArg some (ho.onBig m n)⟩
  | @decimal d e hd he =>
    exact ⟨.decimal (o.onDecimal d e), by rw [both_eq hd he]; rfl, congrArg some (ho.onDecimal d e)⟩

/-- An operation without sides in any family but the floating one. -/
structure Operation.Symmetric (o : Operation) : Prop where
  onWords (m n : Int64) : o.onWords m n = o.onWords n m
  onBig (m n : Int) : o.onBig m n = o.onBig n m
  onDecimal (d e : Decimal) : o.onDecimal d e = o.onDecimal e d

theorem run_comm {k : Family} (ho : o.Symmetric) (hk : Kept h a b x y k) :
    o.run h k a b = o.run h k b a := by
  unfold Operation.run
  cases hk with
  | word hm hn =>
    rw [both_eq hm hn, both_eq hn hm]
    exact congrArg (fun n => Except.ok (Value.long n)) (ho.onWords _ _)
  | big hm hn =>
    rw [both_eq hm hn, both_eq hn hm]
    exact congrArg (fun n => Except.ok (Value.bigInt n)) (ho.onBig _ _)
  | decimal hd he =>
    rw [both_eq hd he, both_eq he hd]
    exact congrArg (fun d => Except.ok (Value.decimal d)) (ho.onDecimal _ _)

/-- The guard lets operands pass that are not both null. -/
theorem guarded_eq {result : Except Fault Value} (ha : isOperand a = true) (hb : isOperand b = true)
    (hnull : ¬(a.isNull && b.isNull) = true) : guarded h a b result = result := by
  rw [guarded, if_neg hnull, checkOperand, checkOperand, if_pos ha, if_pos hb]
  rfl

/-- Unless both operands are null the operation runs in their family. -/
theorem apply_eq_run (ha : a.amount? = some x) (hb : b.amount? = some y)
    (hnull : ¬(a.isNull && b.isNull) = true) : o.apply h a b = o.run h (common a b) a b :=
  guarded_eq (isOperand_of_amount? ha) (isOperand_of_amount? hb) hnull

theorem apply_exact (ho : o.Computes f) (ha : a.amount? = some x) (hb : b.amount? = some y) :
    ∃ r, o.apply h a b = .ok r ∧ r.Holds (f x y) := by
  by_cases hnull : (a.isNull && b.isNull) = true
  · have hzero {v : Value} {x : ℚ} (hn : v.isNull = true) (hv : v.amount? = some x) : x = 0 := by
      cases v <;> cases hn
      exact (Option.some.inj hv).symm
    refine ⟨.long 0, by rw [Operation.apply, guarded, if_pos hnull], 0, ?_, rfl⟩
    rw [Bool.and_eq_true] at hnull
    rw [hzero hnull.1 ha, hzero hnull.2 hb, ho.zero, Int.cast_zero]
  · rw [apply_eq_run ha hb hnull]
    exact run_exact ho (kept_of_amounts ha hb)

theorem apply_comm (ho : o.Symmetric) (ha : a.amount? = some x) (hb : b.amount? = some y) :
    o.apply h a b = o.apply h b a := by
  by_cases hnull : (a.isNull && b.isNull) = true
  · have hnull' : (b.isNull && a.isNull) = true := by rwa [Bool.and_comm]
    rw [Operation.apply, Operation.apply, guarded, guarded, if_pos hnull, if_pos hnull']
  · have hnull' : ¬(b.isNull && a.isNull) = true := by rwa [Bool.and_comm]
    rw [apply_eq_run ha hb hnull, apply_eq_run hb ha hnull', common, common, join_comm (family b)]
    exact run_comm ho (kept_of_amounts ha hb)

/-- Results of one family that stand for the same number are equal. -/
theorem equal_of_holds {k : Family} (hr : r.Holds q) (hs : s.Holds q)
    (hrk : resultFamily? r = some k) (hsk : resultFamily? s = some k) : h.equal r s = true := by
  cases k with
  | word =>
    cases r <;> cases hrk
    cases s <;> cases hsk
    obtain ⟨z, rfl, hz⟩ := hr
    obtain ⟨w, hw, hw'⟩ := hs
    obtain rfl := Int.cast_inj.mp hw
    simp [Heap.equal, Heap.equalAt, Int64.toInt_inj.mp (hz.trans hw'.symm)]
  | big =>
    cases r <;> cases hrk
    cases s <;> cases hsk
    have heq := Int.cast_inj.mp (Option.some.inj (hr.trans hs.symm))
    simp [Heap.equal, Heap.equalAt, heq]
  | floating =>
    cases r <;> cases hrk
    cases hr
  | decimal =>
    cases r <;> cases hrk
    cases s <;> cases hsk
    exact Decimal.equal_iff_meant.mpr (Option.some.inj (hr.trans hs.symm))

/-! ## Sums, differences and products -/

theorem add_computes : Operation.Computes ⟨(· + ·), (· + ·), Binary.add, Decimal.add⟩ (· + ·) where
  onWords m n := ⟨m.toInt + n.toInt, (Int.cast_add _ _).symm, Int64.toInt_add m n⟩
  onBig := Int.cast_add
  onDecimal := Decimal.meant_add
  zero := add_zero 0

theorem add_symmetric :
    Operation.Symmetric ⟨(· + ·), (· + ·), Binary.add, Decimal.add⟩ where
  onWords := Int64.add_comm
  onBig := Int.add_comm
  onDecimal := Decimal.add_comm

theorem sub_computes : Operation.Computes ⟨(· - ·), (· - ·), Binary.sub, Decimal.sub⟩ (· - ·) where
  onWords m n := ⟨m.toInt - n.toInt, (Int.cast_sub _ _).symm, Int64.toInt_sub m n⟩
  onBig := Int.cast_sub
  onDecimal := Decimal.meant_sub
  zero := sub_zero 0

theorem mul_computes : Operation.Computes ⟨(· * ·), (· * ·), Binary.mul, Decimal.mul⟩ (· * ·) where
  onWords m n := ⟨m.toInt * n.toInt, (Int.cast_mul _ _).symm, Int64.toInt_mul m n⟩
  onBig := Int.cast_mul
  onDecimal := Decimal.meant_mul
  zero := mul_zero 0

theorem div_decimal (x y : Decimal) :
    div h (.decimal x) (.decimal y) =
      (x.divideHalfUp? y).elim (.error .divisionByZero) fun d => .ok (.decimal d) := by
  have hboth : both h Coercion.decimal (.decimal x) (.decimal y) = .ok (x, y) := both_eq rfl rfl
  simp only [div, guarded, checkOperand, isOperand, Value.isNumber, Value.isNull, isLarge, hboth,
    bind, Except.bind]
  cases x.divideHalfUp? y <;> rfl

/-- A quotient of decimal numbers has the scale of the dividend and is the number of that scale
nearest to the exact quotient, of two such numbers the one further from zero; a division by zero
fails. -/
theorem decimal_quotient_nearest (h : Heap) (x y : Decimal) :
    (y.meant ≠ 0 → |y.scale| < 2 ^ 32 →
      ∃ r : Decimal, div h (.decimal x) (.decimal y) = .ok (.decimal r) ∧ r.scale = x.scale ∧
        r.HalfUp (x.meant / y.meant) ∧
        ∀ s : Decimal, s.scale = x.scale → s.HalfUp (x.meant / y.meant) → s = r) ∧
    (y.meant = 0 → div h (.decimal x) (.decimal y) = .error .divisionByZero) := by
  rw [div_decimal]
  refine ⟨fun hzero hscale => ?_, fun hzero => ?_⟩
  · obtain ⟨r, hr, hrscale, hnearest⟩ :=
      Decimal.divideHalfUp?_spec (a := x) (Decimal.meant_eq_zero_iff.not.mp hzero) hscale
    rw [hr]
    exact ⟨r, rfl, hrscale, hnearest,
      fun s hs hsnearest => hsnearest.unique hnearest (hs.trans hrscale.symm)⟩
  · rw [Decimal.divideHalfUp?_zero (Decimal.meant_eq_zero_iff.mp hzero)]
    rfl

/-- A negative tie, with a divisor of negative scale. -/
theorem negative_tie_rounded :
    let h : Heap := ⟨⟨#[]⟩, #[]⟩
    div h (.decimal ⟨-5, 0⟩) (.decimal ⟨1, -1⟩) = .ok (.decimal ⟨-1, 0⟩) ∧
      (⟨-1, 0⟩ : Decimal).HalfUp (-5 / 10) ∧
      div h (.decimal ⟨-5, 0⟩) (.decimal ⟨0, -1⟩) = .error .divisionByZero := by
  intro h
  have hdiv : div h (.decimal ⟨-5, 0⟩) (.decimal ⟨1, -1⟩) = .ok (.decimal ⟨-1, 0⟩) := rfl
  have hdividend : (⟨-5, 0⟩ : Decimal).meant = -5 := by norm_num [Decimal.meant]
  have hdivisor : (⟨1, -1⟩ : Decimal).meant = 10 := by norm_num [Decimal.meant]
  obtain ⟨r, hr, -, hnearest, -⟩ := (decimal_quotient_nearest h ⟨-5, 0⟩ ⟨1, -1⟩).1
    (by rw [hdivisor]; norm_num) (by decide)
  cases hdiv.symm.trans hr
  rw [hdividend, hdivisor] at hnearest
  exact ⟨hdiv, hnearest, (decimal_quotient_nearest h ⟨-5, 0⟩ ⟨0, -1⟩).2 (by simp [Decimal.meant])⟩

end Arithmetic

/-! ## Two numbers of one kind

Operands become two numbers of one kind, and an operation has a case for each kind that it expects. What
is left over would be taken only if a conversion gave a number of another kind than it was asked for. -/

namespace Arithmetic

inductive Pair where
  | word (x y : Int64)
  | big (x y : Int)
  | floating (x y : Double)
  | decimal (x y : Decimal)

/-- Two values as such a pair, if they are numbers of one kind. -/
def Pair.ofValues? : Value → Value → Option Pair
  | .long x, .long y => some (.word x y)
  | .bigInt x, .bigInt y => some (.big x y)
  | .double x, .double y => some (.floating x y)
  | .decimal x, .decimal y => some (.decimal x y)
  | _, _ => none

/-- The kind of the numbers of a family. -/
def Family.kind : Family → NumberKind
  | word => .long | big => .bigInt | floating => .double | decimal => .decimal

/-- What a family is called in messages. -/
def Family.title : Family → String
  | word => "Long" | big => "BigInt" | floating => "Double" | decimal => "BigDecimal"

/-- The cases that are left over. -/
inductive Mismatch where
  | unpromoted (a b : String) (f : Family)
  | decimalDivision
  | floatingDivision
  | floatingRemainder
  | integralRemainder
deriving DecidableEq, Inhabited, Repr

def Mismatch.text : Mismatch → String
  | unpromoted a b f => "cannot promote " ++ a ++ " and " ++ b ++ " to " ++ f.title
  | decimalDivision => "decimal division"
  | floatingDivision => "double division"
  | floatingRemainder => "double modulo"
  | integralRemainder => "integral modulo"

/-- Results of operations with all their cases. -/
abbrev Result (α : Type) := Except (Mismatch ⊕ Fault) α

/-- A result that no case is left over for. -/
def expected {α : Type} (r : Except Fault α) : Result α := r.mapError .inr

@[simp] theorem expected_ok {α : Type} (a : α) : expected (.ok a) = .ok a := rfl

@[simp] theorem expected_error {α : Type} (e : Fault) :
    expected (.error e : Except Fault α) = .error (.inr e) := rfl

/-! ### The operations with all their cases -/

variable (h : Heap)

/-- Both operands as numbers of the family. -/
def promote (f : Family) (a b : Value) : Result Pair := do
  let x ← expected (Coercion.toNumber h f.kind a)
  let y ← expected (Coercion.toNumber h f.kind b)
  match Pair.ofValues? x y with
  | some p => pure p
  | none => throw (.inl (.unpromoted (h.display a) (h.display b) f))

def guardedResult (a b : Value) (result : Result Value) : Result Value :=
  if a.isNull && b.isNull then .ok (.long 0)
  else do
    expected (checkOperand h a)
    expected (checkOperand h b)
    result

def Operation.onPair (o : Operation) : Pair → Value
  | .word x y => .long (o.onWords x y)
  | .big x y => .bigInt (o.onBig x y)
  | .floating x y => .double (o.onFloating x y)
  | .decimal x y => .decimal (o.onDecimal x y)

def Operation.applyPromoted (o : Operation) (a b : Value) : Result Value :=
  guardedResult h a b (o.onPair <$> promote h (common a b) a b)

def addPromoted (a b : Value) : Result Value :=
  Operation.applyPromoted h ⟨(· + ·), (· + ·), Binary.add, Decimal.add⟩ a b

def subPromoted (a b : Value) : Result Value :=
  Operation.applyPromoted h ⟨(· - ·), (· - ·), Binary.sub, Decimal.sub⟩ a b

def mulPromoted (a b : Value) : Result Value :=
  Operation.applyPromoted h ⟨(· * ·), (· * ·), Binary.mul, Decimal.mul⟩ a b

def divPromoted (a b : Value) : Result Value :=
  guardedResult h a b <|
    if isLarge a || isLarge b then do
      match ← promote h .decimal a b with
      | .decimal x y =>
        match x.divideHalfUp? y with
        | some d => pure (.decimal d)
        | none => throw (.inr .divisionByZero)
      | _ => throw (.inl .decimalDivision)
    else do
      match ← promote h .floating a b with
      | .floating x y => pure (.double (x.div y))
      | _ => throw (.inl .floatingDivision)

def remPromoted (a b : Value) : Result Value :=
  guardedResult h a b <|
    if Family.floating.level ≤ (common a b).level then do
      match ← promote h .floating a b with
      | .floating x y => pure (.double (x.rem y))
      | _ => throw (.inl .floatingRemainder)
    else do
      match ← promote h (common a b) a b with
      | .big x y =>
        if y ≤ 0 then throw (.inr .modulusNotPositive)
        else
          let r := x.tmod y
          pure (.bigInt (if r < 0 then r + y else r))
      | .word x y => if y = 0 then throw (.inr .remainderByZero) else pure (.long (x % y))
      | _ => throw (.inl .integralRemainder)

/-! ### Nothing is left over -/

variable {h} {a b : Value}

/-- Where numbers of a kind are what a target gives, both operands become such numbers. -/
theorem promote_eq {α : Type} {f : Family} {t : Coercion.Target α} {number : α → Value}
    {pair : α → α → Pair}
    (hnumber : ∀ v, Coercion.toNumber h f.kind v = number <$> Coercion.toTarget h t v)
    (hpair : ∀ x y, Pair.ofValues? (number x) (number y) = some (pair x y)) :
    promote h f a b = (fun p => pair p.1 p.2) <$> expected (both h t a b) := by
  unfold promote both
  rw [hnumber, hnumber]
  cases Coercion.toTarget h t a with
  | error e => rfl
  | ok x =>
    cases Coercion.toTarget h t b with
    | error e => rfl
    | ok y =>
      have hxy := hpair x y
      simp only [expected, Functor.map, Except.map, Except.mapError, bind, Except.bind, pure,
        Except.pure, hxy]

theorem promote_word : promote h .word a b =
    (fun p => .word p.1 p.2) <$> expected (both h Coercion.long a b) :=
  promote_eq (fun _ => rfl) fun _ _ => rfl

theorem promote_big : promote h .big a b =
    (fun p => .big p.1 p.2) <$> expected (both h Coercion.big a b) :=
  promote_eq (fun _ => rfl) fun _ _ => rfl

theorem promote_floating : promote h .floating a b =
    (fun p => .floating p.1 p.2) <$> expected (both h Coercion.double a b) :=
  promote_eq (fun _ => rfl) fun _ _ => rfl

theorem promote_decimal : promote h .decimal a b =
    (fun p => .decimal p.1 p.2) <$> expected (both h Coercion.decimal a b) :=
  promote_eq (fun _ => rfl) fun _ _ => rfl

theorem guardedResult_expected (r : Except Fault Value) :
    guardedResult h a b (expected r) = expected (guarded h a b r) := by
  unfold guardedResult guarded
  split
  · rfl
  · cases checkOperand h a with
    | error e => rfl
    | ok _ => cases checkOperand h b <;> rfl

/-- What an operation makes of a pair is its result in the family of the pair. -/
theorem onPair_promote (o : Operation) (f : Family) :
    o.onPair <$> promote h f a b = expected (o.run h f a b) := by
  cases f with
  | word =>
    rw [promote_word, Operation.run]
    cases both h Coercion.long a b <;> rfl
  | big =>
    rw [promote_big, Operation.run]
    cases both h Coercion.big a b <;> rfl
  | floating =>
    rw [promote_floating, Operation.run]
    cases both h Coercion.double a b <;> rfl
  | decimal =>
    rw [promote_decimal, Operation.run]
    cases both h Coercion.decimal a b <;> rfl

theorem applyPromoted_eq (o : Operation) : o.applyPromoted h a b = expected (o.apply h a b) := by
  rw [Operation.applyPromoted, onPair_promote, guardedResult_expected, Operation.apply]

theorem addPromoted_eq : addPromoted h a b = expected (add h a b) := applyPromoted_eq _

theorem subPromoted_eq : subPromoted h a b = expected (sub h a b) := applyPromoted_eq _

theorem mulPromoted_eq : mulPromoted h a b = expected (mul h a b) := applyPromoted_eq _

theorem divPromoted_eq : divPromoted h a b = expected (div h a b) := by
  rw [div, ← guardedResult_expected]
  refine congrArg (guardedResult h a b) ?_
  split
  · rw [promote_decimal]
    cases both h Coercion.decimal a b with
    | error e => rfl
    | ok p =>
      obtain ⟨x, y⟩ := p
      show (match x.divideHalfUp? y with | some d => _ | none => _) = _
      simp only [bind, Except.bind]
      cases x.divideHalfUp? y <;> rfl
  · rw [promote_floating]
    cases both h Coercion.double a b <;> rfl

theorem remPromoted_eq : remPromoted h a b = expected (rem h a b) := by
  rw [rem, ← guardedResult_expected]
  refine congrArg (guardedResult h a b) ?_
  cases common a b with
  | word =>
    simp only [Family.level]
    rw [promote_word]
    cases both h Coercion.long a b with
    | error e => rfl
    | ok p =>
      obtain ⟨x, y⟩ := p
      show (if y = 0 then _ else _) = _
      simp only [bind, Except.bind]
      split <;> rfl
  | big =>
    simp only [Family.level]
    rw [promote_big]
    cases both h Coercion.big a b with
    | error e => rfl
    | ok p =>
      obtain ⟨x, y⟩ := p
      show (if y ≤ 0 then _ else _) = _
      simp only [bind, Except.bind]
      split <;> rfl
  | floating | decimal =>
    simp only [Family.level]
    rw [promote_floating]
    cases both h Coercion.double a b <;> rfl

end Arithmetic

end ExprLang
