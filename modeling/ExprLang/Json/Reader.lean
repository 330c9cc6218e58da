import ExprLang.Json
import ExprLang.Number.FloatText

/-! Reading JSON values. Characters below the space may not stand in strings, escapes of surrogates
have to come in pairs, and numbers have to fit a double. -/

namespace ExprLang.Json

/-- Arrays and objects may nest so many deep. -/
def depthLimit : Nat := 127

def isSpace (c : Char) : Bool := c == ' ' || c == '\n' || c == '\t' || c == '\r'

def skipSpaces (cs : List Char) : List Char := cs.dropWhile isSpace

/-- The value of four hexadecimal digits, and the rest. -/
def readHex4 (cs : List Char) : Option (Nat × List Char) :=
  let digit? (c : Char) : Option Nat :=
    if '0' ≤ c && c ≤ '9' then some (c.toNat - '0'.toNat)
    else if 'a' ≤ c && c ≤ 'f' then some (c.toNat - 'a'.toNat + 10)
    else if 'A' ≤ c && c ≤ 'F' then some (c.toNat - 'A'.toNat + 10)
    else none
  match cs.take 4 |>.mapM digit? with
  | some [a, b, c, d] => some (((a * 16 + b) * 16 + c) * 16 + d, cs.drop 4)
  | _ => none

/-- The character of the escape whose digits begin here, and the rest. -/
def readUnicode (cs : List Char) : Option (Char × List Char) := do
  let (high, rest) ← readHex4 cs
  if high < 0xd800 || 0xe000 ≤ high then some (Char.ofNat high, rest)
  else if 0xdc00 ≤ high then none
  else
    match rest with
    | '\\' :: 'u' :: rest =>
      let (low, rest) ← readHex4 rest
      if low < 0xdc00 || 0xe000 ≤ low then none
      else some (Char.ofNat (0x10000 + (high - 0xd800) * 0x400 + (low - 0xdc00)), rest)
    | _ => none

/-- What a letter after a backslash stands for. -/
def unescape? : Char → Option Char
  | '"' => some '"' | '\\' => some '\\' | '/' => some '/' | 'b' => some '\x08'
  | 'f' => some '\x0c' | 'n' => some '\n' | 'r' => some '\r' | 't' => some '\t'
  | _ => none

/-- The characters of a string after its opening quote, of which `read` came before, and the rest
after its closing quote. -/
def readString (read : List Char) : Nat → List Char → Option (String × List Char)
  | 0, _ => none
  | _ + 1, [] => none
  | fuel + 1, c :: cs =>
    if c == '"' then some (String.ofList read.reverse, cs)
    else if c.toNat < 0x20 then none
    else if c == '\\' then
      match cs with
      | 'u' :: cs => do
        let (d, cs) ← readUnicode cs
        readString (d :: read) fuel cs
      | d :: cs => do
        let e ← unescape? d
        readString (e :: read) fuel cs
      | [] => none
    else readString (c :: read) fuel cs

/-- The digits at the front, of which there has to be one, and the rest. -/
def readDigits (cs : List Char) : Option (List Char × List Char) :=
  let digits := cs.takeWhile Binary.isDecimalDigit
  if digits.isEmpty then none else some (digits, cs.dropWhile Binary.isDecimalDigit)

/-- A number as it is written, and the rest. -/
def readNumber (cs : List Char) : Option (String × List Char) := do
  let (sign, cs) := match cs with
    | '-' :: cs => (['-'], cs)
    | cs => ([], cs)
  let (whole, cs) ← match cs with
    | '0' :: cs => some (['0'], cs)
    | cs => readDigits cs
  let (fraction, cs) ← match cs with
    | '.' :: cs => do
      let (digits, cs) ← readDigits cs
      pure ('.' :: digits, cs)
    | cs => some ([], cs)
  let (exponent, cs) ← match cs with
    | c :: cs =>
      if c == 'e' || c == 'E' then do
        let (mark, cs) := match cs with
          | '+' :: cs => ([c, '+'], cs)
          | '-' :: cs => ([c, '-'], cs)
          | cs => ([c], cs)
        let (digits, cs) ← readDigits cs
        pure (mark ++ digits, cs)
      else some ([], c :: cs)
    | [] => some ([], [])
  let text := String.ofList (sign ++ whole ++ fraction ++ exponent)
  match (Binary.ofText text : Except Binary.TextFault Double) with
  | .ok (.finite _ _ _) => some (text, cs)
  | _ => none

/-- The rest after a word that stands at the front. -/
def readWord (word : String) (cs : List Char) : Option (List Char) :=
  if word.toList.isPrefixOf cs then some (cs.drop word.length) else none

mutual

/-- A value and the rest after it. `depth` bounds the nesting, `fuel` the steps. -/
def readValue (depth : Nat) : Nat → List Char → Option (Json × List Char)
  | 0, _ => none
  | fuel + 1, cs =>
    match skipSpaces cs with
    | [] => none
    | '"' :: cs => (readString [] (cs.length + 1) cs).map fun (s, cs) => (.string s, cs)
    | '[' :: cs =>
      if depth == 0 then none
      else
        match skipSpaces cs with
        | ']' :: cs => some (.array [], cs)
        | cs => (readItems (depth - 1) fuel cs).map fun (xs, cs) => (.array xs, cs)
    | '\x7b' :: cs =>
      if depth == 0 then none
      else
        match skipSpaces cs with
        | '\x7d' :: cs => some (.object [], cs)
        | cs => (readMembers (depth - 1) fuel cs).map fun (ms, cs) => (.object ms, cs)
    | 'n' :: cs => (readWord "ull" cs).map fun cs => (.null, cs)
    | 't' :: cs => (readWord "rue" cs).map fun cs => (.bool true, cs)
    | 'f' :: cs => (readWord "alse" cs).map fun cs => (.bool false, cs)
    | cs => (readNumber cs).map fun (t, cs) => (.number t, cs)

/-- The items of an array up to its closing bracket. -/
def readItems (depth : Nat) : Nat → List Char → Option (List Json × List Char)
  | 0, _ => none
  | fuel + 1, cs =>
    match readValue depth fuel cs with
    | none => none
    | some (x, cs) =>
      match skipSpaces cs with
      | ',' :: cs => (readItems depth fuel cs).map fun (xs, cs) => (x :: xs, cs)
      | ']' :: cs => some ([x], cs)
      | _ => none

/-- The members of an object up to its closing brace. -/
def readMembers (depth : Nat) : Nat → List Char → Option (List (String × Json) × List Char)
  | 0, _ => none
  | fuel + 1, cs =>
    match skipSpaces cs with
    | '"' :: cs =>
      match readString [] (cs.length + 1) cs with
      | none => none
      | some (key, cs) =>
        match skipSpaces cs with
        | ':' :: cs =>
          match readValue depth fuel cs with
          | none => none
          | some (x, cs) =>
            match skipSpaces cs with
            | ',' :: cs => (readMembers depth fuel cs).map fun (ms, cs) => ((key, x) :: ms, cs)
            | '\x7d' :: cs => some ([(key, x)], cs)
            | _ => none
        | _ => none
    | _ => none

end

/-- The value that a text consists of. -/
def ofText? (s : String) : Option Json :=
  match readValue depthLimit (2 * s.utf8ByteSize + 2) s.toList with
  | some (j, rest) => if rest.all isSpace then some j else none
  | none => none

end ExprLang.Json
