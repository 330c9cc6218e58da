import ExprLang.Number.FloatText

/-! Points in time, and their text with date, time and offset. -/

namespace ExprLang

/-- A point in time: whole seconds since the start of 1970, and nanoseconds after them. In a leap
second there are a second and more of these. -/
structure Instant where
  second : Int
  nano : Nat
deriving DecidableEq, Inhabited, Repr

namespace Instant

/-- The earlier instant is the lesser one. -/
def compare (a b : Instant) : Ordering :=
  (Ord.compare a.second b.second).then (Ord.compare a.nano b.nano)

def toMillis (t : Instant) : Int := 1000 * t.second + (t.nano / 1000000 : Nat)

/-! ## The calendar -/

structure Date where
  year : Int
  month : Nat
  day : Nat
deriving DecidableEq, Repr

def isLeapYear (y : Int) : Bool := y % 4 == 0 && (y % 100 != 0 || y % 400 == 0)

def daysInMonth (y : Int) (m : Nat) : Nat :=
  if m == 2 then (if isLeapYear y then 29 else 28)
  else if m == 4 || m == 6 || m == 9 || m == 11 then 30
  else 31

namespace Date

def isValid (d : Date) : Bool :=
  1 ≤ d.month && d.month ≤ 12 && 1 ≤ d.day && d.day ≤ daysInMonth d.year d.month

/-- Days since the first of January 1970. Years are counted from March, in eras of 400. -/
def toDays (d : Date) : Int :=
  let y := if d.month ≤ 2 then d.year - 1 else d.year
  let era := y.fdiv 400
  let yearOfEra := y - 400 * era
  let shifted : Int := ((d.month + 9) % 12 : Nat)
  let dayOfYear := (153 * shifted + 2).fdiv 5 + d.day - 1
  let dayOfEra := 365 * yearOfEra + yearOfEra.fdiv 4 - yearOfEra.fdiv 100 + dayOfYear
  146097 * era + dayOfEra - 719468

/-- The date so many days after the first of January 1970. -/
def ofDays (days : Int) : Date :=
  let z := days + 719468
  let era := z.fdiv 146097
  let dayOfEra := z - 146097 * era
  let yearOfEra :=
    (dayOfEra - dayOfEra.fdiv 1460 + dayOfEra.fdiv 36524 - dayOfEra.fdiv 146096).fdiv 365
  let dayOfYear := dayOfEra - (365 * yearOfEra + yearOfEra.fdiv 4 - yearOfEra.fdiv 100)
  let shifted := (5 * dayOfYear + 2).fdiv 153
  let day := dayOfYear - (153 * shifted + 2).fdiv 5 + 1
  let month := if shifted < 10 then shifted + 3 else shifted - 9
  let year := yearOfEra + 400 * era
  ⟨if month ≤ 2 then year + 1 else year, month.toNat, day.toNat⟩

end Date

/-! ## Writing -/

/-- A number with zeros in front up to this many digits. -/
def padded (width n : Nat) : String :=
  let digits := Nat.toDigits 10 n
  String.ofList (List.replicate (width - digits.length) '0' ++ digits)

/-- A year of four digits, with a sign where more are needed. -/
def yearText (y : Int) : String :=
  if 0 ≤ y && y ≤ 9999 then padded 4 y.toNat
  else (if y < 0 then "-" else "+") ++ padded 4 y.natAbs

/-- The fraction of a second in none, three, six or nine digits, the fewest that show it. -/
def fractionText (nano : Nat) : String :=
  if nano == 0 then ""
  else if nano % 1000000 == 0 then "." ++ padded 3 (nano / 1000000)
  else if nano % 1000 == 0 then "." ++ padded 6 (nano / 1000)
  else "." ++ padded 9 nano

def toText (t : Instant) : String :=
  let date := Date.ofDays (t.second.fdiv 86400)
  let time := (t.second.fmod 86400).toNat
  let leap := decide (1000000000 ≤ t.nano)
  yearText date.year ++ "-" ++ padded 2 date.month ++ "-" ++ padded 2 date.day ++ "T" ++
    padded 2 (time / 3600) ++ ":" ++ padded 2 (time / 60 % 60) ++ ":" ++
    padded 2 (time % 60 + (if leap then 1 else 0)) ++
    fractionText (if leap then t.nano - 1000000000 else t.nano) ++ "Z"

/-! ## Reading -/

/-- A number of exactly this many digits, and the rest. -/
def number? (width : Nat) (cs : List Char) : Option (Nat × List Char) :=
  let digits := cs.take width
  if digits.length == width && digits.all Binary.isDecimalDigit then
    some (Binary.digitsValue digits, cs.drop width)
  else none

/-- The rest after this character. -/
def char? (c : Char) : List Char → Option (List Char)
  | d :: rest => if c == d then some rest else none
  | [] => none

/-- A number from `low` to `high`, and the rest. -/
def field? (width low high : Nat) (cs : List Char) : Option (Nat × List Char) :=
  (number? width cs).filter fun (n, _) => low ≤ n && n ≤ high

/-- The nanoseconds of a fraction, of which nine digits count, and the rest. -/
def fraction? : List Char → Option (Nat × List Char)
  | '.' :: cs =>
    let digits := cs.takeWhile Binary.isDecimalDigit
    if digits.isEmpty then none
    else
      let kept := digits.take 9
      some (Binary.digitsValue kept * tenPow (9 - kept.length), cs.dropWhile Binary.isDecimalDigit)
  | cs => some (0, cs)

/-- The seconds of an offset that makes up all of this text. -/
def offset? : List Char → Option Int
  | ['Z'] => some 0
  | ['z'] => some 0
  | sign :: cs => do
    let negative ← if sign == '+' then some false
      else if sign == '-' || sign == '\u2212' then some true else none
    let (hours, cs) ← field? 2 0 23 cs
    let cs ← char? ':' cs
    let (minutes, cs) ← field? 2 0 59 cs
    if cs.isEmpty then
      let seconds : Int := 3600 * hours + 60 * minutes
      some (if negative then -seconds else seconds)
    else none
  | [] => none

/-- The instant of a text such as `2024-02-29T12:30:00.5+05:30`. -/
def ofText? (s : String) : Option Instant := do
  let (year, cs) ← number? 4 s.toList
  let cs ← char? '-' cs
  let (month, cs) ← number? 2 cs
  let cs ← char? '-' cs
  let (day, cs) ← number? 2 cs
  let cs ← match cs with
    | c :: rest => if c == 'T' || c == 't' || c == ' ' then some rest else none
    | [] => none
  let (hour, cs) ← field? 2 0 23 cs
  let cs ← char? ':' cs
  let (minute, cs) ← field? 2 0 59 cs
  let cs ← char? ':' cs
  let (second, cs) ← field? 2 0 60 cs
  let (nano, cs) ← fraction? cs
  let offset ← offset? cs
  let date : Date := ⟨year, month, day⟩
  if date.isValid then
    let leap := second == 60
    let time : Int := 3600 * hour + 60 * minute + (if leap then 59 else second)
    some ⟨86400 * date.toDays + time - offset, if leap then nano + 1000000000 else nano⟩
  else none

end Instant

end ExprLang
