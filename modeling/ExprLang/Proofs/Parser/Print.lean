import ExprLang.Node.Parser
import ExprLang.Proofs.Lexer.Written

/-! The canonical text of a tree: single spaces between the tokens, and parentheses around a child
only where the grammar takes something tighter at its place. -/

namespace ExprLang

/-! ## Levels -/

/-- The levels of the grammar. -/
inductive Rung where
  | sequence | assignment | choice | binary (level : Parser.Level) | unary | value | primary
deriving DecidableEq, Inhabited, Repr

def Parser.Level.height : Parser.Level → Nat
  | or => 3 | and => 4 | equality => 5 | relational => 6 | concat => 7 | additive => 8
  | multiplicative => 9

/-- Looser levels are lower. -/
def Rung.height : Rung → Nat
  | sequence => 0 | assignment => 1 | choice => 2 | binary level => level.height | unary => 10
  | value => 11 | primary => 12

/-- The level of the operands of a binary operator. -/
def Parser.Level.tighter : Parser.Level → Rung
  | or => .binary .and | and => .binary .equality | equality => .binary .relational
  | relational => .binary .concat | concat => .binary .additive
  | additive => .binary .multiplicative | multiplicative => .unary

/-- The level of an operator that groups to the left. -/
def BinaryOp.level? : BinaryOp → Option Parser.Level
  | or => some .or | and => some .and | eq => some .equality | ne => some .equality
  | lt => some .relational | gt => some .relational | le => some .relational
  | ge => some .relational | concat => some .concat | add => some .additive
  | sub => some .additive | mul => some .multiplicative | div => some .multiplicative
  | mod => some .multiplicative | elvis => none | coalesce => none

def BinaryOp.rung (op : BinaryOp) : Rung := op.level?.elim .choice .binary

namespace Node

/-- The level of the phrase that a tree is written as. -/
def rung : Node → Rung
  | sequence _ _ => .sequence
  | assign _ _ => .assignment
  | lambda _ _ [] => .assignment
  | choice _ _ _ => .choice
  | binary op _ _ => op.rung
  | unary _ _ => .unary
  | path _ _ => .value
  | _ => .primary

/-- A lambda that is not called at once. -/
def isArrow : Node → Bool
  | lambda _ _ [] => true
  | _ => false

end Node

/-! ## Words -/

/-- Tokens without a space between them. -/
inductive Word where
  | token (t : Token)
  /-- The name of a function with its prefix. -/
  | prefixed (ns name : String)
deriving DecidableEq, Inhabited, Repr

namespace Word

abbrev symbol (s : Symbol) : Word := token (.symbol s)

abbrev keyword (k : Keyword) : Word := token (.keyword k)

abbrev name (s : String) : Word := token (.name s)

def written : Word → String
  | token t => t.written
  | prefixed ns name => ns ++ ":" ++ name

/-- Words in parentheses. -/
def enclose (ws : List Word) : List Word := symbol .lParen :: (ws ++ [symbol .rParen])

/-- The words of a tree at a place for phrases of a level. -/
def fit (place : Rung) (n : Node) (ws : List Word) : List Word :=
  if n.rung.height < place.height then enclose ws else ws

/-- The parameters of a lambda after the first one. -/
def moreParams : List String → List Word
  | [] => []
  | p :: ps => symbol .comma :: name p :: moreParams ps

/-- The parameters of a lambda, and its arrow. -/
def header : List String → List Word
  | [p] => [name p, symbol .arrow]
  | [] => [symbol .lParen, symbol .rParen, symbol .arrow]
  | p :: ps => symbol .lParen :: name p :: (moreParams ps ++ [symbol .rParen, symbol .arrow])

end Word

def UnaryOp.word : UnaryOp → Word
  | neg => .symbol .minus | not => .symbol .bang | empty => .keyword .empty

def BinaryOp.word : BinaryOp → Word
  | add => .symbol .plus | sub => .symbol .minus | mul => .symbol .star | div => .symbol .slash
  | mod => .symbol .percent | concat => .symbol .plusEq | eq => .symbol .eqEq
  | ne => .symbol .notEq | lt => .symbol .lt | gt => .symbol .gt | le => .symbol .ltEq
  | ge => .symbol .gtEq | and => .symbol .ampAmp | or => .symbol .pipePipe
  | elvis => .symbol .elvis | coalesce => .symbol .questionQuestion

/-- The places of the operands of an operator. -/
def BinaryOp.places (op : BinaryOp) : Rung × Rung :=
  match op.level? with
  | some level => (.binary level, level.tighter)
  | none => (.binary .or, .choice)

/-- The body of a lambda is a lambda or a choice. -/
def Node.bodyPlace (body : Node) : Rung := if body.isArrow then .assignment else .choice

open Word in
mutual

/-- The words of a tree. -/
def Node.words : Node → List Word
  | .null => [keyword .null]
  | .boolean b => [keyword (if b then .true else .false)]
  | .integer t => [token (.integer t)]
  | .floating t => [token (.floating t)]
  | .text t => [token (.text t)]
  | .name n => [name n]
  | .path base steps => fit .primary base base.words ++ wordsOfSteps steps
  | .call ns n calls =>
    (if ns.isEmpty then name n else prefixed ns n) :: wordsOfCalls calls
  | .lambda params body [] => header params ++ fit body.bodyPlace body body.words
  | .lambda params body (c :: cs) =>
    enclose (header params ++ fit body.bodyPlace body body.words) ++ wordsOfCalls (c :: cs)
  | .unary op a => op.word :: fit .unary a a.words
  | .binary op a b => fit op.places.1 a a.words ++ op.word :: fit op.places.2 b b.words
  | .choice c a b =>
    fit (.binary .or) c c.words ++ symbol .question :: (fit .choice a a.words ++
      symbol .colon :: fit .choice b b.words)
  | .assign a b => fit .choice a a.words ++ symbol .eq :: fit .assignment b b.words
  | .sequence a b =>
    (if a.isArrow then enclose a.words else a.words) ++
      symbol .semi :: fit .assignment b b.words
  | .list items => symbol .lBracket :: (wordsOfAll items ++ [symbol .rBracket])
  | .set items => symbol .lBrace :: (wordsOfAll items ++ [symbol .rBrace])
  | .map entries => symbol .lBrace :: (wordsOfEntries entries ++ [symbol .rBrace])
  | .plain _ => []
  | .template _ => []
  | .deferred _ => []
  | .dynamic _ => []

/-- Items with commas between them. -/
def wordsOfAll : List Node → List Word
  | [] => []
  | n :: ns => n.words ++ wordsOfMore ns

/-- Items with a comma before each. -/
def wordsOfMore : List Node → List Word
  | [] => []
  | n :: ns => symbol .comma :: (n.words ++ wordsOfMore ns)

def wordsOfCalls : List (List Node) → List Word
  | [] => []
  | c :: cs => enclose (wordsOfAll c) ++ wordsOfCalls cs

/-- Entries with commas between them. -/
def wordsOfEntries : List (Node × Node) → List Word
  | [] => []
  | (k, v) :: es => k.words ++ symbol .colon :: (v.words ++ wordsOfMoreEntries es)

/-- Entries with a comma before each. -/
def wordsOfMoreEntries : List (Node × Node) → List Word
  | [] => []
  | (k, v) :: es =>
    symbol .comma :: (k.words ++ symbol .colon :: (v.words ++ wordsOfMoreEntries es))

def wordsOfSteps : List Step → List Word
  | [] => []
  | s :: ss => wordsOfStep s ++ wordsOfSteps ss

def wordsOfStep : Step → List Word
  | .mk s args => wordsOfSelector s ++ wordsOfArgs args

def wordsOfSelector : Selector → List Word
  | .field n => [symbol .dot, name n]
  | .index n => symbol .lBracket :: (n.words ++ [symbol .rBracket])

def wordsOfArgs : Option (List Node) → List Word
  | none => []
  | some ns => enclose (wordsOfAll ns)

end

/-- The canonical text of a tree. -/
def Node.print (n : Node) : String := String.intercalate " " (n.words.map Word.written)

end ExprLang
