import ExprLang.SyntaxError
import ExprLang.Token

/-! Splitting the text of an expression into tokens. Each token is the longest one that the rest
of the text starts with. -/

namespace ExprLang.Lexer

/-- Characters that may stand between tokens. -/
def isSpace (c : Char) : Bool := c == ' ' || c == '\t' || c == '\n' || c == '\r'

def isDigit (c : Char) : Bool := '0' ≤ c && c ≤ '9'

def isNameStart (c : Char) : Bool :=
  ('a' ≤ c && c ≤ 'z') || ('A' ≤ c && c ≤ 'Z') || c == '_' || c == '$'

def isNamePart (c : Char) : Bool := isNameStart c || isDigit c

/-- The number of bytes that these characters take. -/
def byteLength : List Char → Nat
  | [] => 0
  | c :: cs => c.utf8Size + byteLength cs

/-- The text that is left after this many bytes. -/
def dropBytes : Nat → List Char → List Char
  | 0, cs => cs
  | _, [] => []
  | n + 1, c :: cs => dropBytes (n + 1 - c.utf8Size) cs
termination_by _ cs => cs.length

/-- The number of digits at the start. -/
def digitRun (cs : List Char) : Nat := (cs.takeWhile isDigit).length

/-- The length of the sign at the start. -/
def signRun : List Char → Nat
  | '+' :: _ => 1
  | '-' :: _ => 1
  | _ => 0

/-- The length of the exponent at the start: a letter, perhaps a sign, and digits. -/
def exponentRun : List Char → Nat
  | [] => 0
  | c :: rest =>
    if c == 'e' || c == 'E' then
      let sign := signRun rest
      let digits := digitRun (rest.drop sign)
      if digits = 0 then 0 else 1 + sign + digits
    else 0

/-- The length of the fraction at the start: a point, perhaps digits, perhaps an exponent. -/
def fractionRun : List Char → Nat
  | '.' :: rest =>
    let digits := digitRun rest
    1 + digits + exponentRun (rest.drop digits)
  | _ => 0

/-- The length of the number at the start, and whether it has a fraction or an exponent. -/
def numberRun (cs : List Char) : Nat × Bool :=
  let whole := digitRun cs
  let after := cs.drop whole
  let tail := if fractionRun after = 0 then exponentRun after else fractionRun after
  (whole + tail, tail != 0)

/-- The length of the rest of a string after its opening quote, and whether it is closed. A
backslash takes the next character with it, unless that ends the line. -/
def quotedRun (quote : Char) : List Char → Nat × Bool
  | [] => (0, false)
  | c :: rest =>
    if c == quote then (1, true)
    else if c == '\\' then
      match rest with
      | [] => (0, false)
      | e :: rest' =>
        if e == '\n' then (0, false)
        else
          let (n, closed) := quotedRun quote rest'
          (n + 2, closed)
    else
      let (n, closed) := quotedRun quote rest
      (n + 1, closed)

/-- The content of a string: a backslash before a backslash or a quote is dropped. -/
def unescape : List Char → List Char
  | [] => []
  | ['\\'] => ['\\']
  | '\\' :: c :: rest =>
    if c == '\\' || c == '\'' || c == '"' then c :: unescape rest
    else '\\' :: c :: unescape rest
  | c :: rest => c :: unescape rest

/-- The sign that the text starts with. -/
def symbolAt? (cs : List Char) : Option Symbol :=
  Symbol.all.find? fun s => s.spelling.toList.isPrefixOf cs

/-- The token that a name stands for. -/
def wordToken (s : String) : Token :=
  match Keyword.ofSpelling? s with
  | some w => .keyword w
  | none => .name s

/-- The token at the start of a text `c :: rest` that does not start with a space, and the number
of characters it takes of `rest`. Without a token, that number tells what was read in vain. -/
def tokenAt (c : Char) (rest : List Char) : Option Token × Nat :=
  if isDigit c || (c == '.' && digitRun rest != 0) then
    let (n, isFloating) := numberRun (c :: rest)
    let written := String.ofList ((c :: rest).take n)
    (some (if isFloating then .floating written else .integer written), n - 1)
  else if c == '"' || c == '\'' then
    let (n, closed) := quotedRun c rest
    if closed then (some (.text (String.ofList (unescape (rest.take (n - 1))))), n) else (none, n)
  else if isNameStart c then
    let n := (rest.takeWhile isNamePart).length
    (some (wordToken (String.ofList (c :: rest.take n))), n)
  else
    match symbolAt? (c :: rest) with
    | some s => (some (.symbol s), s.spelling.length - 1)
    | none => (none, 0)

/-- The outcome of looking for one token. -/
inductive Next where
  /-- Nothing but spaces is left; the text ends at this offset. -/
  | finished (stop : Nat)
  | found (lexeme : Lexeme) (rest : List Char)
  | refused (e : SyntaxError)

/-- Looks for the first token of `cs`, which starts at byte `offset` of its source. -/
def next (offset : Nat) (cs : List Char) : Next :=
  let start := offset + byteLength (cs.takeWhile isSpace)
  match cs.dropWhile isSpace with
  | [] => .finished start
  | c :: rest =>
    let n := (tokenAt c rest).2
    let span : Span := ⟨start, start + byteLength (c :: rest.take n)⟩
    match (tokenAt c rest).1 with
    | some token => .found ⟨token, span⟩ (rest.drop n)
    | none => .refused ⟨.badCharacter (String.ofList (c :: rest.take n)), span⟩

/-- A token takes at least one character. -/
theorem next_shorter {offset : Nat} {cs rest : List Char} {l : Lexeme}
    (h : next offset cs = .found l rest) : rest.length < cs.length := by
  unfold next at h
  split at h
  · cases h
  · rename_i c r hc
    have hle : (cs.dropWhile isSpace).length ≤ cs.length :=
      (List.dropWhile_sublist isSpace).length_le
    rw [hc] at hle
    split at h
    · cases h
      simp at hle ⊢
      omega
    · cases h

/-- The tokens of `cs`, which starts at byte `offset` of its source. -/
def lexFrom (offset : Nat) (cs : List Char) : Except SyntaxError (List Lexeme) :=
  match _h : next offset cs with
  | .finished _ => .ok []
  | .refused e => .error e
  | .found l rest =>
    match lexFrom l.span.stop rest with
    | .ok ls => .ok (l :: ls)
    | .error e => .error e
termination_by cs.length
decreasing_by exact next_shorter _h

/-- The tokens before a closing brace, the offset of that brace, and the text after it. -/
structure Segment where
  lexemes : List Lexeme
  stop : Nat
  rest : List Char

/-- The tokens of `cs` up to the first closing brace that `depth` open braces and those that
follow leave unmatched. -/
def segmentFrom (offset depth : Nat) (cs : List Char) : Except SyntaxError Segment :=
  match _h : next offset cs with
  | .finished stop => .error ⟨.openSegment, .point stop⟩
  | .refused e => .error e
  | .found l rest =>
    if l.token = .symbol .rBrace ∧ depth = 0 then .ok ⟨[], l.span.start, rest⟩
    else
      let deeper :=
        if l.token = .symbol .lBrace then depth + 1
        else if l.token = .symbol .rBrace then depth - 1
        else depth
      match segmentFrom l.span.stop deeper rest with
      | .ok s => .ok { s with lexemes := l :: s.lexemes }
      | .error e => .error e
termination_by cs.length
decreasing_by exact next_shorter _h

/-- A segment takes at least its closing brace. -/
theorem segmentFrom_shorter {offset depth : Nat} {cs : List Char} {s : Segment}
    (h : segmentFrom offset depth cs = .ok s) : s.rest.length < cs.length := by
  fun_induction segmentFrom offset depth cs generalizing s with
  | case1 => cases h
  | case2 => cases h
  | case3 _ _ _ _ _ hn => cases h; exact next_shorter hn
  | case4 _ _ _ _ _ hn =>
    rename_i hs ih
    have hlt := ih hs
    cases h
    exact Nat.lt_trans hlt (next_shorter hn)
  | case5 => cases h

end ExprLang.Lexer

namespace ExprLang

/-- The tokens of a bare expression. -/
def tokenize (source : String) : Except SyntaxError (List Lexeme) :=
  Lexer.lexFrom 0 source.toList

/-- The tokens of the segment body that starts at byte `start` of a source, and the offset of the
brace that closes it. -/
def tokenizeSegment (source : String) (start : Nat) : Except SyntaxError (List Lexeme × Nat) :=
  match Lexer.segmentFrom start 0 (Lexer.dropBytes start source.toList) with
  | .ok s => .ok (s.lexemes, s.stop)
  | .error e => .error e

end ExprLang
