import ExprLang.Lexer
import ExprLang.Node

/-! Reading a tree from tokens. From the loosest to the tightest the levels are: sequence,
assignment and lambda, choice, the binary levels, unary, path, primary. -/

namespace ExprLang.Parser

/-- The outcome of reading one phrase: what it stands for and the tokens after it, a refusal, or
a bound on the nesting that was too small. -/
inductive Reading (α : Type) where
  | found (value : α) (rest : List Lexeme)
  | refused (e : SyntaxError)
  | exhausted

def Reader (α : Type) : Type := List Lexeme → Reading α

namespace Reader
variable {α β : Type}

protected def pure (a : α) : Reader α := fun ts => .found a ts

protected def bind (r : Reader α) (f : α → Reader β) : Reader β := fun ts =>
  match r ts with
  | .found a rest => f a rest
  | .refused e => .refused e
  | .exhausted => .exhausted

instance : Monad Reader where
  pure := Reader.pure
  bind := Reader.bind

end Reader

/-! ## Single tokens -/

section Tokens
variable {α : Type} (eof : Span)

def refuse (issue : SyntaxIssue) (span : Span) : Reader α := fun _ => .refused ⟨issue, span⟩

/-- The span of the next token, or of the end of the expression. -/
def here : Reader Span := fun ts =>
  .found (match ts with | [] => eof | t :: _ => t.span) ts

/-- Refuses the next token where `what` should stand. -/
def unexpected (what : String) : Reader α := fun ts =>
  match ts with
  | [] => .refused ⟨.expected what none, eof⟩
  | t :: _ => .refused ⟨.expected what (some t.token.spelling), t.span⟩

/-- The next token is this sign. -/
def at? (s : Symbol) : Reader Bool := fun ts =>
  .found (match ts with | [] => false | t :: _ => t.token == .symbol s) ts

/-- Takes this sign if it is next, and tells whether it was. -/
def eat (s : Symbol) : Reader Bool := fun ts =>
  match ts with
  | [] => .found false ts
  | t :: rest => if t.token = .symbol s then .found true rest else .found false ts

def expect (s : Symbol) : Reader Unit := fun ts =>
  match ts with
  | [] => unexpected eof ("'" ++ s.spelling ++ "'") ts
  | t :: rest =>
    if t.token = .symbol s then .found () rest
    else unexpected eof ("'" ++ s.spelling ++ "'") ts

def expectName : Reader String := fun ts =>
  match ts with
  | ⟨.name n, _⟩ :: rest => .found n rest
  | _ => unexpected eof "identifier" ts

/-- The next token, which stays. -/
def peek : Reader (Option Token) := fun ts => .found (ts.head?.map Lexeme.token) ts

/-- Drops the next token. -/
def skip : Reader Unit := fun ts => .found () ts.tail

end Tokens

/-! ## Lambda headers -/

/-- The end of a header in parentheses and the arrow stand next. -/
def closesHeader : List Lexeme → Bool
  | ⟨.symbol .rParen, _⟩ :: ⟨.symbol .arrow, _⟩ :: _ => true
  | _ => false

/-- Further parameters, the end of the header and the arrow stand next. -/
def namesAhead : List Lexeme → Bool
  | ⟨.symbol .comma, _⟩ :: ⟨.name _, _⟩ :: rest => namesAhead rest
  | ts => closesHeader ts

/-- A lambda starts here: `x ->`, `() ->` or `(x, y) ->`. -/
def lambdaAhead : List Lexeme → Bool
  | ⟨.name _, _⟩ :: ⟨.symbol .arrow, _⟩ :: _ => true
  | ⟨.symbol .lParen, _⟩ :: ⟨.name _, _⟩ :: rest => namesAhead rest
  | ⟨.symbol .lParen, _⟩ :: rest => closesHeader rest
  | _ => false

/-- The parameters that follow the first one. -/
def moreParams (eof : Span) : List Lexeme → Reading (List String)
  | ⟨.symbol .comma, _⟩ :: ⟨.name n, _⟩ :: rest =>
    match moreParams eof rest with
    | .found ns rest' => .found (n :: ns) rest'
    | .refused e => .refused e
    | .exhausted => .exhausted
  | ⟨.symbol .comma, _⟩ :: rest => unexpected eof "identifier" rest
  | ts => .found [] ts

/-- The parameters of a lambda and its arrow. -/
def lambdaHeader (eof : Span) : Reader (List String) := do
  let params ← do
    if ← eat .lParen then
      if ← eat .rParen then pure []
      else
        let first ← expectName eof
        let more ← (moreParams eof : Reader (List String))
        expect eof .rParen
        pure (first :: more)
    else
      let only ← expectName eof
      pure [only]
  expect eof .arrow
  pure params

/-! ## The grammar -/

/-- The levels of binary operators, all of them grouped to the left. -/
inductive Level where
  | or | and | equality | relational | concat | additive | multiplicative
deriving DecidableEq, Inhabited, Repr

/-- The operator of this level that a token stands for. -/
def Level.operator? : Level → Token → Option BinaryOp
  | .or, .keyword .or => some .or
  | .or, .symbol .pipePipe => some .or
  | .and, .keyword .and => some .and
  | .and, .symbol .ampAmp => some .and
  | .equality, .symbol .eqEq => some .eq
  | .equality, .keyword .eq => some .eq
  | .equality, .symbol .notEq => some .ne
  | .equality, .keyword .ne => some .ne
  | .relational, .symbol .lt => some .lt
  | .relational, .keyword .lt => some .lt
  | .relational, .symbol .gt => some .gt
  | .relational, .keyword .gt => some .gt
  | .relational, .symbol .ltEq => some .le
  | .relational, .keyword .le => some .le
  | .relational, .symbol .gtEq => some .ge
  | .relational, .keyword .ge => some .ge
  | .concat, .symbol .plusEq => some .concat
  | .additive, .symbol .plus => some .add
  | .additive, .symbol .minus => some .sub
  | .multiplicative, .symbol .star => some .mul
  | .multiplicative, .symbol .slash => some .div
  | .multiplicative, .keyword .div => some .div
  | .multiplicative, .symbol .percent => some .mod
  | .multiplicative, .keyword .mod => some .mod
  | _, _ => none

def unaryOperator? : Token → Option UnaryOp
  | .symbol .minus => some .neg
  | .symbol .bang => some .not
  | .keyword .not => some .not
  | .keyword .empty => some .empty
  | _ => none

/-- What can be read, and what it stands for. -/
inductive Phrase : Type → Type where
  | sequence : Phrase Node
  | sequenceTail (first : Node) : Phrase Node
  | assignment : Phrase Node
  | lambda : Phrase Node
  | choice : Phrase Node
  | binary (level : Level) : Phrase Node
  | binaryTail (level : Level) (left : Node) : Phrase Node
  | unary : Phrase Node
  | value : Phrase Node
  | steps : Phrase (List Step)
  | primary : Phrase Node
  /-- One argument list. -/
  | arguments : Phrase (List Node)
  /-- Any number of argument lists. -/
  | calls : Phrase (List (List Node))
  /-- The items after the first one. -/
  | moreItems : Phrase (List Node)
  /-- The items after the first one of a set whose brace opens at this span. -/
  | moreMembers (opening : Span) : Phrase (List Node)
  /-- The entries after the first one of a map whose brace opens at this span. -/
  | moreEntries (opening : Span) : Phrase (List (Node × Node))

/-- The operands of a binary level. -/
def Level.operand : Level → Phrase Node
  | .or => .binary .and
  | .and => .binary .equality
  | .equality => .binary .relational
  | .relational => .binary .concat
  | .concat => .binary .additive
  | .additive => .binary .multiplicative
  | .multiplicative => .unary

section Grammar
variable (eof : Span) (call : {α : Type} → Phrase α → Reader α)

def assignment : Reader Node := fun ts =>
  if lambdaAhead ts then call .lambda ts
  else
    (do
      let target ← call .choice
      if ← eat .eq then
        let value ← call .assignment
        pure (.assign target value)
      else pure target : Reader Node) ts

def lambdaBody : Reader Node := fun ts =>
  if lambdaAhead ts then call .lambda ts else call .choice ts

def lambda : Reader Node := do
  let params ← lambdaHeader eof
  let body ← lambdaBody call
  pure (.lambda params body [])

def choice : Reader Node := do
  let condition ← call (.binary .or)
  if ← eat .question then
    let yes ← call .choice
    expect eof .colon
    let no ← call .choice
    pure (.choice condition yes no)
  else if ← eat .elvis then
    let right ← call .choice
    pure (.binary .elvis condition right)
  else if ← eat .questionQuestion then
    let right ← call .choice
    pure (.binary .coalesce condition right)
  else pure condition

def binaryTail (level : Level) (left : Node) : Reader Node := do
  match (← peek).bind level.operator? with
  | some op =>
    skip
    let right ← call level.operand
    call (.binaryTail level (.binary op left right))
  | none => pure left

def unary : Reader Node := do
  match (← peek).bind unaryOperator? with
  | some op =>
    skip
    let operand ← call .unary
    pure (.unary op operand)
  | none => call .value

/-- The arguments of a step, if it has any, and the steps after it. -/
def stepsAfter (selector : Selector) : Reader (List Step) := do
  let args ← if ← at? .lParen then some <$> call .arguments else pure none
  let more ← call .steps
  pure (.mk selector args :: more)

def steps : Reader (List Step) := do
  if ← eat .dot then
    let name ← expectName eof
    stepsAfter call (.field name)
  else if ← eat .lBracket then
    let index ← call .sequence
    expect eof .rBracket
    stepsAfter call (.index index)
  else pure []

/-- Items between two signs, separated by commas. -/
def enclosed (opening closing : Symbol) : Reader (List Node) := do
  expect eof opening
  if ← eat closing then pure []
  else
    let first ← call .sequence
    let more ← call .moreItems
    expect eof closing
    pure (first :: more)

/-- A lambda in parentheses, which may be called at once. -/
def enclosedLambda : Reader Node := do
  expect eof .lParen
  let lambda ← call .lambda
  expect eof .rParen
  let calls ← call .calls
  match lambda with
  | .lambda params body _ => pure (.lambda params body calls)
  | other => pure other

/-- A name, a call of a function, or one of a function with a prefix. A prefix is taken for one
only where nothing stands between it, the colon and the name. -/
def nameOrCall : Reader Node := fun ts =>
  match ts with
  | ⟨.name n, span⟩ :: rest =>
    match rest with
    | ⟨.symbol .lParen, _⟩ :: _ =>
      (do
        let calls ← call .calls
        pure (.call "" n calls) : Reader Node) rest
    | ⟨.symbol .colon, colon⟩ :: ⟨.name m, after⟩ :: ⟨.symbol .lParen, paren⟩ :: rest' =>
      if colon.start = span.stop ∧ after.start = colon.stop then
        (do
          let calls ← call .calls
          pure (.call n m calls) : Reader Node) (⟨.symbol .lParen, paren⟩ :: rest')
      else .found (.name n) rest
    | _ => .found (.name n) rest
  | _ => unexpected eof "identifier" ts

def setOrMap : Reader Node := do
  let opening ← here eof
  expect eof .lBrace
  if ← eat .rBrace then pure (.set [])
  else
    let first ← call .sequence
    if ← eat .colon then
      let value ← call .sequence
      let more ← call (.moreEntries opening)
      expect eof .rBrace
      pure (.map ((first, value) :: more))
    else
      let more ← call (.moreMembers opening)
      expect eof .rBrace
      pure (.set (first :: more))

def primary : Reader Node := fun ts =>
  match ts with
  | ⟨.keyword .null, _⟩ :: rest => .found .null rest
  | ⟨.keyword .true, _⟩ :: rest => .found (.boolean true) rest
  | ⟨.keyword .false, _⟩ :: rest => .found (.boolean false) rest
  | ⟨.integer t, _⟩ :: rest => .found (.integer t) rest
  | ⟨.floating t, _⟩ :: rest => .found (.floating t) rest
  | ⟨.text t, _⟩ :: rest => .found (.text t) rest
  | ⟨.symbol .lParen, _⟩ :: rest =>
    if lambdaAhead rest then enclosedLambda eof call ts
    else
      (do
        let inner ← call .sequence
        expect eof .rParen
        pure inner : Reader Node) rest
  | ⟨.symbol .lBracket, _⟩ :: _ => (Node.list <$> enclosed eof call .lBracket .rBracket : Reader Node) ts
  | ⟨.symbol .lBrace, _⟩ :: _ => setOrMap eof call ts
  | ⟨.name _, _⟩ :: _ => nameOrCall eof call ts
  | _ => unexpected eof "expression" ts

def moreMembers (opening : Span) : Reader (List Node) := do
  if ← eat .comma then
    let item ← call .sequence
    if ← at? .colon then
      let span ← here eof
      refuse .mixedEntries (opening.merge span)
    else
      let more ← call (.moreMembers opening)
      pure (item :: more)
  else pure []

def moreEntries (opening : Span) : Reader (List (Node × Node)) := do
  if ← eat .comma then
    let key ← call .sequence
    if ← eat .colon then
      let value ← call .sequence
      let more ← call (.moreEntries opening)
      pure ((key, value) :: more)
    else
      let span ← here eof
      refuse .mixedEntries (opening.merge span)
  else pure []

/-- Reads one phrase; `call` reads the phrases inside it. -/
def step : {α : Type} → Phrase α → Reader α
  | _, .sequence => do
    let first ← call .assignment
    call (.sequenceTail first)
  | _, .sequenceTail first => do
    if ← eat .semi then
      let second ← call .assignment
      call (.sequenceTail (.sequence first second))
    else pure first
  | _, .assignment => assignment call
  | _, .lambda => lambda eof call
  | _, .choice => choice eof call
  | _, .binary level => do
    let left ← call level.operand
    call (.binaryTail level left)
  | _, .binaryTail level left => binaryTail call level left
  | _, .unary => unary call
  | _, .value => do
    let base ← call .primary
    match ← call .steps with
    | [] => pure base
    | s :: ss => pure (.path base (s :: ss))
  | _, .steps => steps eof call
  | _, .primary => primary eof call
  | _, .arguments => enclosed eof call .lParen .rParen
  | _, .calls => do
    if ← at? .lParen then
      let first ← call .arguments
      let more ← call .calls
      pure (first :: more)
    else pure []
  | _, .moreItems => do
    if ← eat .comma then
      let item ← call .sequence
      let more ← call .moreItems
      pure (item :: more)
    else pure []
  | _, .moreMembers opening => moreMembers eof call opening
  | _, .moreEntries opening => moreEntries eof call opening

end Grammar

/-- Reads a phrase that nests at most `depth` phrases. -/
def run (eof : Span) : Nat → {α : Type} → Phrase α → Reader α
  | 0, _, _ => fun _ => .exhausted
  | depth + 1, _, phrase => step eof (run eof depth) phrase

/-- A nesting that no phrase over this many tokens exceeds. -/
def depthFor (tokens : Nat) : Nat := 16 * (tokens + 1)

end ExprLang.Parser

namespace ExprLang

/-- The tree that all these tokens make up; `eof` is where the expression ends. -/
def parseTokens (ts : List Lexeme) (eof : Span) : Except SyntaxError Node :=
  match Parser.run eof (Parser.depthFor ts.length) .sequence ts with
  | .found node [] => .ok node
  | .found _ (t :: _) => .error ⟨.trailing t.token.spelling, t.span⟩
  | .refused e => .error e
  | .exhausted => .error ⟨.expected "expression" none, eof⟩

/-- The tree of a bare expression. -/
def parseExpression (source : String) : Except SyntaxError Node :=
  match tokenize source with
  | .ok ts => parseTokens ts (.point source.utf8ByteSize)
  | .error e => .error e

end ExprLang
