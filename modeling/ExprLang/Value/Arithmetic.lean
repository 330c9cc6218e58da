import ExprLang.Value.Coercion

/-! The arithmetic operators. Both operands become numbers of the widest of their families; from
the narrowest to the widest these are 64 bit integers, integers, floating numbers, decimal
numbers. -/

namespace ExprLang.Arithmetic

inductive Family where
  | word | big | floating | decimal
deriving DecidableEq, Inhabited, Repr

def Family.level : Family → Nat
  | word => 0 | big => 1 | floating => 2 | decimal => 3

/-- The wider of two families. -/
def Family.join (a b : Family) : Family := if a.level < b.level then b else a

/-- The family of an operand. -/
def family : Value → Family
  | .decimal _ => .decimal
  | .double _ => .floating
  | .float _ => .floating
  | .text s => if Coercion.isFloatText s then .floating else .word
  | .bigInt _ => .big
  | _ => .word

/-- An operation by what it does in each family. -/
structure Operation where
  onWords : Int64 → Int64 → Int64
  onBig : Int → Int → Int
  onFloating : Double → Double → Double
  onDecimal : Decimal → Decimal → Decimal

variable (h : Heap)

/-- The values that may stand as operands. -/
def isOperand : Value → Bool
  | .null => true
  | .text _ => true
  | .char _ => true
  | v => v.isNumber

def checkOperand (v : Value) : Except Fault Unit :=
  if isOperand v then .ok () else .error (Coercion.refusal h v "Number")

/-- Both operands as numbers of one kind. -/
def both {α : Type} (t : Coercion.Target α) (a b : Value) : Except Fault (α × α) := do
  let x ← Coercion.toTarget h t a
  let y ← Coercion.toTarget h t b
  pure (x, y)

/-- The family of both operands. -/
def common (a b : Value) : Family := (family a).join (family b)

/-- The result of an operation in a family. -/
def Operation.run (o : Operation) (f : Family) (a b : Value) : Except Fault Value :=
  match f with
  | .word => (fun (x, y) => .long (o.onWords x y)) <$> both h Coercion.long a b
  | .big => (fun (x, y) => .bigInt (o.onBig x y)) <$> both h Coercion.big a b
  | .floating => (fun (x, y) => .double (o.onFloating x y)) <$> both h Coercion.double a b
  | .decimal => (fun (x, y) => .decimal (o.onDecimal x y)) <$> both h Coercion.decimal a b

/-- A result for two operands. Two nulls give zero. -/
def guarded (a b : Value) (result : Except Fault Value) : Except Fault Value :=
  if a.isNull && b.isNull then .ok (.long 0)
  else do
    checkOperand h a
    checkOperand h b
    result

/-- The result of an operation in the family of both operands. -/
def Operation.apply (o : Operation) (a b : Value) : Except Fault Value :=
  guarded h a b (o.run h (common a b) a b)

def add (a b : Value) : Except Fault Value :=
  Operation.apply h ⟨(· + ·), (· + ·), Binary.add, Decimal.add⟩ a b

def sub (a b : Value) : Except Fault Value :=
  Operation.apply h ⟨(· - ·), (· - ·), Binary.sub, Decimal.sub⟩ a b

def mul (a b : Value) : Except Fault Value :=
  Operation.apply h ⟨(· * ·), (· * ·), Binary.mul, Decimal.mul⟩ a b

/-- A number of any size. -/
def isLarge : Value → Bool
  | .bigInt _ => true
  | .decimal _ => true
  | _ => false

/-- The quotient: numbers of any size divide as decimal numbers, all others as floating ones. -/
def div (a b : Value) : Except Fault Value :=
  guarded h a b <|
    if isLarge a || isLarge b then do
      let (x, y) ← both h Coercion.decimal a b
      match x.divideHalfUp? y with
      | some d => pure (.decimal d)
      | none => throw .divisionByZero
    else (fun (x, y) => .double (x.div y)) <$> both h Coercion.double a b

/-- The remainder: words leave one of the dividend's sign, integers one that is not negative. -/
def rem (a b : Value) : Except Fault Value :=
  guarded h a b <|
    match common a b with
    | .word => do
      let (x, y) ← both h Coercion.long a b
      if y = 0 then throw .remainderByZero else pure (.long (x % y))
    | .big => do
      let (x, y) ← both h Coercion.big a b
      if y ≤ 0 then throw .modulusNotPositive
      else
        let r := x.tmod y
        pure (.bigInt (if r < 0 then r + y else r))
    | _ => (fun (x, y) => .double (x.rem y)) <$> both h Coercion.double a b

/-- The opposite of a number of the same kind. -/
def neg (v : Value) : Except Fault Value :=
  match v with
  | .null => .ok (.long 0)
  | .decimal d => .ok (.decimal d.neg)
  | .bigInt n => .ok (.bigInt (-n))
  | .long n => .ok (.long (-n))
  | .int n => .ok (.int (-n))
  | .short n => .ok (.short (-n))
  | .byte n => .ok (.byte (-n))
  | .double x => .ok (.double x.neg)
  | .float x => .ok (.float x.neg)
  | v =>
    if v.text?.any Coercion.isFloatText then
      (fun x => Value.double x.neg) <$> Coercion.toTarget h Coercion.double v
    else (fun n => Value.long (-n)) <$> Coercion.toTarget h Coercion.long v

end ExprLang.Arithmetic
