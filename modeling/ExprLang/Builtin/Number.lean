import ExprLang.Builtin.Argument
import ExprLang.Number.Power
import ExprLang.Text.CharClass

/-! Methods and constants of the classes of numbers. -/

namespace ExprLang.Builtin

/-! ## All numbers -/

def conversion (name : String) (returns : TypeRef) (k : NumberKind) : Declaration :=
  query name [] returns fun h self _ => (Coercion.toNumber h k self).mapError .fault

def numberMethods : List Declaration :=
  [conversion "intValue" intType .int, conversion "longValue" longType .long,
    conversion "floatValue" (.primitive .float) .float, conversion "doubleValue" doubleType .double]

/-! ## Whole numbers of fixed width -/

/-- The number that a text stands for in a type of so many bits. -/
def readInteger (h : Heap) (bits : Nat) (v : Value) : Except Failure Int := do
  let s ← asText h v
  (IntegerText.ofWidth bits s).mapError fun e => .plain e.message

/-- A function from the text of a whole number to the number. -/
def integerReader (name : String) (returns : TypeRef) (bits : Nat) (make : Int → Value) :
    Declaration :=
  function name [.string] returns fun h args => do
    return make (← readInteger h bits (← argument args 0))

/-- The largest and the least number of a type. -/
def extremes (t : TypeRef) (largest least : Value) : List StaticField :=
  [⟨"MAX_VALUE", t, largest⟩, ⟨"MIN_VALUE", t, least⟩]

def intValue (n : Int) : Value := .int (Int32.ofInt n)

/-- The number of zeros behind the last one among the lowest `bits` binary digits. -/
def trailingZeros (n : Nat) : Nat → Nat
  | 0 => 0
  | bits + 1 => if n % 2 = 1 then 0 else trailingZeros (n / 2) bits + 1

def integerFields : List StaticField :=
  extremes intType (.int Int32.maxValue) (.int Int32.minValue)

def integerConstructors : List Declaration :=
  [constructor [intType] first,
    constructor [.string] fun h args => do
      let s ← asText h (← argument args 0)
      return intValue (← readInteger h 32 (.text (trimBlanks s)))]

def integerMethods : List Declaration :=
  [integerReader "parseInt" intType 32 intValue,
    function "valueOf" [intType] (.boxed .int) first,
    integerReader "valueOf" (.boxed .int) 32 intValue,
    function "numberOfTrailingZeros" [intType] intType fun h args => do
      let n ← asWord h (← argument args 0)
      return intOf (trailingZeros n.toInt32.toUInt32.toNat 32)]

def longFields : List StaticField :=
  extremes longType (.long Int64.maxValue) (.long Int64.minValue)

def longConstructors : List Declaration := [constructor [longType] first]

def longMethods : List Declaration :=
  [integerReader "parseLong" longType 64 fun n => .long (Int64.ofInt n),
    function "valueOf" [longType] (.boxed .long) first]

def shortFields : List StaticField :=
  extremes (.primitive .short) (.short Int16.maxValue) (.short Int16.minValue)

def shortMethods : List Declaration :=
  [integerReader "parseShort" (.primitive .short) 16 fun n => .short (Int16.ofInt n)]

def byteFields : List StaticField :=
  extremes (.primitive .byte) (.byte Int8.maxValue) (.byte Int8.minValue)

def byteMethods : List Declaration :=
  [integerReader "parseByte" (.primitive .byte) 8 fun n => .byte (Int8.ofInt n)]

/-! ## Floating numbers -/

/-- The largest number of a format. -/
def largest (f : FloatFormat) : Binary f :=
  .finite false (twoPow f.precision - 1) (f.maxExponent - (f.precision - 1))

/-- The least positive number of a format. -/
def tiniest (f : FloatFormat) : Binary f := .finite false 1 f.minExponent

/-- The number that a text stands for; blanks around it are dropped. -/
def readFloating (f : FloatFormat) (h : Heap) (v : Value) : Except Failure (Binary f) := do
  let s ← asText h v
  (Binary.ofText (trimBlanks s)).mapError fun e => .plain e.message

def floatFields : List StaticField :=
  extremes (.primitive .float) (.float (largest .single)) (.float (tiniest .single))

def floatMethods : List Declaration :=
  [function "parseFloat" [.string] (.primitive .float) fun h args => do
      return .float (← readFloating .single h (← argument args 0))]

def doubleFields : List StaticField :=
  extremes doubleType (.double (largest .double)) (.double (tiniest .double)) ++
    [⟨"NaN", doubleType, .double .nan⟩,
      ⟨"POSITIVE_INFINITY", doubleType, .double (.infinite false)⟩,
      ⟨"NEGATIVE_INFINITY", doubleType, .double (.infinite true)⟩]

def doubleConstructors : List Declaration := [constructor [doubleType] first]

def doubleMethods : List Declaration :=
  [function "parseDouble" [.string] doubleType fun h args => do
      return .double (← readFloating .double h (← argument args 0)),
    function "valueOf" [doubleType] (.boxed .double) first,
    function "isNaN" [doubleType] booleanType fun h args => do
      return .bool (← asDouble h (← argument args 0)).isNaN]

/-! ## Integers of any size -/

def bigFields : List StaticField :=
  [⟨"ZERO", .bigInteger, .bigInt 0⟩, ⟨"ONE", .bigInteger, .bigInt 1⟩,
    ⟨"TEN", .bigInteger, .bigInt 10⟩]

def bigConstructors : List Declaration :=
  [constructor [.string] fun h args => do
      let s ← asText h (← argument args 0)
      let n ← (IntegerText.unbounded s).mapError fun e => Failure.plain e.message
      return .bigInt n]

def bigOperation (name : String) (f : Int → Int → Int) : Declaration :=
  query name [.bigInteger] .bigInteger fun h self args => do
    let a ← asBig h self
    return .bigInt (f a (← asBig h (← argument args 0)))

def bigMethods : List Declaration :=
  [function "valueOf" [longType] .bigInteger fun h args => do
      return .bigInt (← asWord h (← argument args 0)).toInt,
    bigOperation "add" (· + ·), bigOperation "subtract" (· - ·), bigOperation "multiply" (· * ·),
    query "pow" [intType] .bigInteger fun h self args => do
      let n ← asWord h (← argument args 0)
      if n < 0 || n.toInt ≥ twoPow 32 then fail "negative exponent"
      else return .bigInt ((← asBig h self).pow n.toInt.toNat),
    query "negate" [] .bigInteger fun h self _ => do return .bigInt (-(← asBig h self)),
    query "signum" [] intType fun h self _ => do return intValue (← asBig h self).sign]

/-! ## Decimal numbers -/

def decimalFields : List StaticField :=
  [⟨"ZERO", .bigDecimal, .decimal (.ofInt 0)⟩, ⟨"ONE", .bigDecimal, .decimal (.ofInt 1)⟩,
    ⟨"TEN", .bigDecimal, .decimal (.ofInt 10)⟩]

def decimalConstructors : List Declaration :=
  [constructor [.string] fun h args => do
      let s ← asText h (← argument args 0)
      let d ← (Decimal.ofText s).mapError fun e => Failure.plain e.message
      return .decimal d]

def decimalOperation (name : String) (f : Decimal → Decimal → Decimal) : Declaration :=
  query name [.bigDecimal] .bigDecimal fun h self args => do
    let a ← asDecimal h self
    return .decimal (f a (← asDecimal h (← argument args 0)))

/-- Zeros that a zero operand adds to a sum at most. -/
def zeroWidening : Int := 15

/-- The scale of a number next to a zero of another scale: the larger one, but not more than
`zeroWidening` further. -/
def widened (d zero : Decimal) : Decimal :=
  let scale := max d.scale (min zero.scale (d.scale + zeroWidening))
  ⟨d.digitsAt scale, scale⟩

/-- The sum at the larger scale; a zero operand widens the scale only so far. -/
def decimalSum (a b : Decimal) : Decimal :=
  if b.isZero then widened a b
  else if a.isZero then widened b a
  else a.add b

/-- The product; a factor of one leaves the other one with the fewest digits. -/
def decimalProduct (a b : Decimal) : Decimal :=
  if a.isOne then b.normalized
  else if b.isOne then a.normalized
  else a.mul b

def decimalMethods : List Declaration :=
  [function "valueOf" [doubleType] .bigDecimal fun h args => do
      return .decimal (← asDecimal h (← argument args 0)),
    decimalOperation "add" decimalSum, decimalOperation "subtract" Decimal.sub,
    decimalOperation "multiply" decimalProduct,
    query "negate" [] .bigDecimal fun h self _ => do return .decimal (← asDecimal h self).neg,
    query "scale" [] intType fun h self _ => do return intValue (← asDecimal h self).scale,
    query "toBigInteger" [] .bigInteger fun h self _ =>
      (Coercion.toNumber h .bigInt self).mapError .fault]

/-! ## Mathematics -/

/-- The number 3.14159… nearest in the format of doubles. -/
def pi : Double := .finite false 7074237752028440 (-51)

/-- The number 2.71828… nearest in the format of doubles. -/
def euler : Double := .finite false 6121026514868073 (-51)

def mathFields : List StaticField := [⟨"PI", doubleType, .double pi⟩, ⟨"E", doubleType, .double euler⟩]

def ofDouble (name : String) (f : Double → Double) : Declaration :=
  function name [doubleType] doubleType fun h args => do
    return .double (f (← asDouble h (← argument args 0)))

/-- A function of two words in the types of 32 and of 64 bits, and of two floating numbers. -/
def ofPair (name : String) (onWords : Int64 → Int64 → Int64)
    (onDoubles : Double → Double → Double) : List Declaration :=
  [function name [intType, intType] intType fun h args => do
      let a ← asWord h (← argument args 0)
      return int32 (onWords a (← asWord h (← argument args 1))),
    function name [longType, longType] longType fun h args => do
      let a ← asWord h (← argument args 0)
      return .long (onWords a (← asWord h (← argument args 1))),
    function name [doubleType, doubleType] doubleType fun h args => do
      let a ← asDouble h (← argument args 0)
      return .double (onDoubles a (← asDouble h (← argument args 1)))]

/-- The magnitude of a word; the least word is its own. -/
def magnitude32 (n : Int32) : Int32 := if n < 0 then -n else n

def magnitude64 (n : Int64) : Int64 := if n < 0 then -n else n

/-- The nearest whole number, of two the greater one. -/
def round (x : Double) : Int64 :=
  Numeral.ofFloating ((x.add (.finite false 1 (-1))).floor)

def mathMethods : List Declaration :=
  [function "abs" [intType] intType fun h args => do
      return .int (magnitude32 (← asWord h (← argument args 0)).toInt32),
    function "abs" [longType] longType fun h args => do
      return .long (magnitude64 (← asWord h (← argument args 0))),
    ofDouble "abs" Binary.abs] ++
    ofPair "max" (fun a b => if a < b then b else a) Binary.maximum ++
    ofPair "min" (fun a b => if b < a then b else a) Binary.minimum ++
    [ofDouble "sqrt" Binary.sqrt, ofDouble "floor" Binary.floor, ofDouble "ceil" Binary.ceil,
      function "pow" [doubleType, doubleType] doubleType fun h args => do
        let x ← asDouble h (← argument args 0)
        return .double (x.pow (← asDouble h (← argument args 1))),
      function "round" [doubleType] longType fun h args => do
        return .long (round (← asDouble h (← argument args 0)))]

end ExprLang.Builtin
