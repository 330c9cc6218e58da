import ExprLang.Number.FloatText

/-! What a session can be set up with, and the notation for it: a line `name = value` for each
setting, blank lines, and comments from `#` to the end of the line. -/

namespace ExprLang

structure Settings where
  /-- How many trees are kept by their texts. -/
  expressionCapacity : Nat := 256
  /-- How many classes keep their properties. -/
  beanCapacity : Nat := 1024
  /-- Properties of objects cannot be written. -/
  readOnlyBeans : Bool := false
  /-- The builtin classes are known by their simple names. -/
  importBuiltins : Bool := true
deriving DecidableEq, Inhabited, Repr

namespace Settings

/-! ## Lines -/

def isSpace (c : Char) : Bool := c == ' ' || c == '\t'

/-- Characters that may stand in comments and quoted names. -/
def isPrintable (c : Char) : Bool := c == '\t' || (0x20 ≤ c.toNat && c.toNat != 0x7f)

/-- Nothing but blanks and perhaps a comment. -/
def isEmptyLine (cs : List Char) : Bool :=
  match cs.dropWhile isSpace with
  | [] => true
  | '#' :: comment => comment.all isPrintable
  | _ => false

/-- The lines of a text. All but the last may end in a carriage return. -/
def splitLines (line : List Char) : List Char → List (List Char)
  | [] => [line.reverse]
  | '\r' :: '\n' :: cs => line.reverse :: splitLines [] cs
  | '\n' :: cs => line.reverse :: splitLines [] cs
  | c :: cs => splitLines (c :: line) cs

/-! ## Names -/

def isBare (c : Char) : Bool :=
  ('a' ≤ c && c ≤ 'z') || ('A' ≤ c && c ≤ 'Z') || Binary.isDecimalDigit c || c == '_' || c == '-'

/-- The value of a digit, of which letters of both cases stand for ten and more. -/
def digit? (base : Nat) (c : Char) : Option Nat :=
  let n :=
    if Binary.isDecimalDigit c then c.toNat - '0'.toNat
    else if 'a' ≤ c && c ≤ 'z' then c.toNat - 'a'.toNat + 10
    else if 'A' ≤ c && c ≤ 'Z' then c.toNat - 'A'.toNat + 10
    else base
  if n < base then some n else none

/-- The character with this number, unless it is a surrogate or too large. -/
def character? (n : Nat) : Option Char := if n.isValidChar then some (Char.ofNat n) else none

/-- The character that so many hexadecimal digits at the front stand for, and the rest. -/
def readCode (count : Nat) (cs : List Char) : Option (Char × List Char) := do
  let digits ← (cs.take count).mapM (digit? 16)
  if digits.length = count then
    let c ← character? (digits.foldl (fun n d => 16 * n + d) 0)
    pure (c, cs.drop count)
  else none

/-- What a letter after a backslash stands for. -/
def unescape? : Char → Option Char
  | 'b' => some '\x08' | 't' => some '\t' | 'n' => some '\n' | 'f' => some '\x0c'
  | 'r' => some '\r' | '"' => some '"' | '\\' => some '\\'
  | _ => none

theorem readCode_length {count : Nat} {cs rest : List Char} {c : Char}
    (h : readCode count cs = some (c, rest)) : rest.length ≤ cs.length := by
  simp only [readCode, Option.bind_eq_bind, Option.bind_eq_some_iff] at h
  obtain ⟨digits, -, h⟩ := h
  split at h
  · simp only [Option.bind_eq_some_iff, Option.pure_def, Option.some.injEq, Prod.mk.injEq] at h
    obtain ⟨_, -, -, rfl⟩ := h
    simp
  · cases h

/-- A name up to its closing double quote, after the part that was read, given in reverse, and the
rest. -/
def readQuoted (read : List Char) (cs : List Char) : Option (String × List Char) :=
  match cs with
  | [] => none
  | '"' :: rest => some (String.ofList read.reverse, rest)
  | '\\' :: 'u' :: rest =>
    match _h : readCode 4 rest with
    | some (c, rest') => readQuoted (c :: read) rest'
    | none => none
  | '\\' :: 'U' :: rest =>
    match _h : readCode 8 rest with
    | some (c, rest') => readQuoted (c :: read) rest'
    | none => none
  | '\\' :: c :: rest =>
    match unescape? c with
    | some d => readQuoted (d :: read) rest
    | none => none
  | c :: rest => if isPrintable c then readQuoted (c :: read) rest else none
termination_by cs.length
decreasing_by
  · have := readCode_length _h
    simp only [List.length_cons]
    omega
  · have := readCode_length _h
    simp only [List.length_cons]
    omega
  · simp only [List.length_cons]
    omega
  · simp

/-- The name at the front, bare or quoted, and the rest. -/
def readName (cs : List Char) : Option (String × List Char) :=
  match cs with
  | '"' :: cs => readQuoted [] cs
  | '\'' :: cs =>
    let inner := cs.takeWhile (· != '\'')
    match cs.drop inner.length with
    | _ :: rest => if inner.all isPrintable then some (String.ofList inner, rest) else none
    | [] => none
  | cs =>
    let bare := cs.takeWhile isBare
    if bare.isEmpty then none else some (String.ofList bare, cs.drop bare.length)

/-! ## Values -/

/-- The number that `value` becomes by these further digits; single underscores may stand between
digits. -/
def readDigits (base value : Nat) : List Char → Option Nat
  | [] => some value
  | '_' :: c :: cs => (digit? base c).bind fun d => readDigits base (base * value + d) cs
  | c :: cs => (digit? base c).bind fun d => readDigits base (base * value + d) cs

def natural? (base : Nat) (cs : List Char) : Option Nat :=
  match cs with
  | [] => none
  | c :: rest => (digit? base c).bind fun d => readDigits base d rest

/-- A decimal number without needless zeros at its front. -/
def decimal? (cs : List Char) : Option Nat :=
  match cs with
  | ['0'] => some 0
  | '0' :: _ => none
  | cs => natural? 10 cs

/-- Numbers have to fit 64 bits, one of which is for the sign. -/
def size? (cs : List Char) : Option Nat :=
  let n? :=
    match cs with
    | '0' :: 'x' :: cs => natural? 16 cs
    | '0' :: 'o' :: cs => natural? 8 cs
    | '0' :: 'b' :: cs => natural? 2 cs
    | '+' :: cs => decimal? cs
    | '-' :: cs => (decimal? cs).filter (· == 0)
    | cs => decimal? cs
  n?.filter (· < twoPow 63)

def switch? (cs : List Char) : Option Bool :=
  if cs == "true".toList then some true
  else if cs == "false".toList then some false
  else none

/-! ## Settings -/

/-- The names of all settings. -/
def names : List String :=
  ["expression_cache_capacity", "bean_cache_capacity", "read_only_beans", "import_builtins"]

/-- The settings with the one of this name changed. -/
def set? (s : Settings) (name : String) (value : List Char) : Option Settings :=
  match name with
  | "expression_cache_capacity" => (size? value).map fun n => { s with expressionCapacity := n }
  | "bean_cache_capacity" => (size? value).map fun n => { s with beanCapacity := n }
  | "read_only_beans" => (switch? value).map fun b => { s with readOnlyBeans := b }
  | "import_builtins" => (switch? value).map fun b => { s with importBuiltins := b }
  | _ => none

/-- The name and the value of a line that holds a setting. -/
def readLine (line : List Char) : Option (String × List Char) := do
  let (name, rest) ← readName (line.dropWhile isSpace)
  match rest.dropWhile isSpace with
  | '=' :: rest =>
    let rest := rest.dropWhile isSpace
    let value := rest.takeWhile fun c => !isSpace c && c != '#'
    if isEmptyLine (rest.drop value.length) then some (name, value) else none
  | _ => none

/-- The settings after these lines, of which no one may set what is set already. -/
def readLines (s : Settings) (seen : List String) : List (List Char) → Option Settings
  | [] => some s
  | line :: lines =>
    if isEmptyLine line then readLines s seen lines
    else do
      let (name, value) ← readLine line
      if seen.contains name then none
      else
        let t ← s.set? name value
        readLines t (name :: seen) lines

/-- The settings that a text describes; a mark of byte order may come first. -/
def ofText? (text : String) : Option Settings :=
  let cs := match text.toList with
    | '\ufeff' :: cs => cs
    | cs => cs
  readLines {} [] (splitLines [] cs)

end Settings

end ExprLang
