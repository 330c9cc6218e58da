import ExprLang.Span

/-! The tokens of an expression. -/

namespace ExprLang

/-- Reserved words. -/
inductive Keyword where
  | true | false | null | empty | not | and | or | eq | ne | lt | gt | le | ge | div | mod
deriving DecidableEq, Inhabited, Repr

/-- Punctuation and operator signs. -/
inductive Symbol where
  | plusEq | arrow | eqEq | notEq | ltEq | gtEq | ampAmp | pipePipe | elvis | questionQuestion
  | plus | minus | star | slash | percent | lt | gt | bang | eq | question | colon | semi | comma
  | dot | lParen | rParen | lBracket | rBracket | lBrace | rBrace
deriving DecidableEq, Inhabited, Repr

inductive Token where
  | keyword (word : Keyword)
  | symbol (sign : Symbol)
  /-- A number with a fraction or an exponent, as written. -/
  | floating (text : String)
  /-- A number made of digits alone, as written. -/
  | integer (text : String)
  /-- The content of a quoted string. -/
  | text (content : String)
  | name (text : String)
deriving DecidableEq, Inhabited, Repr

namespace Keyword

def all : List Keyword :=
  [.true, .false, .null, .empty, .not, .and, .or, .eq, .ne, .lt, .gt, .le, .ge, .div, .mod]

def spelling : Keyword → String
  | true => "true" | false => "false" | null => "null" | empty => "empty" | not => "not"
  | and => "and" | or => "or" | eq => "eq" | ne => "ne" | lt => "lt" | gt => "gt" | le => "le"
  | ge => "ge" | div => "div" | mod => "mod"

/-- The reserved word with this spelling. -/
def ofSpelling? (s : String) : Option Keyword := all.find? (·.spelling == s)

end Keyword

namespace Symbol

/-- All signs. A sign stands before every shorter one that it starts with. -/
def all : List Symbol :=
  [.plusEq, .arrow, .eqEq, .notEq, .ltEq, .gtEq, .ampAmp, .pipePipe, .elvis, .questionQuestion,
    .plus, .minus, .star, .slash, .percent, .lt, .gt, .bang, .eq, .question, .colon, .semi,
    .comma, .dot, .lParen, .rParen, .lBracket, .rBracket, .lBrace, .rBrace]

def spelling : Symbol → String
  | plusEq => "+=" | arrow => "->" | eqEq => "==" | notEq => "!=" | ltEq => "<=" | gtEq => ">="
  | ampAmp => "&&" | pipePipe => "||" | elvis => "?:" | questionQuestion => "??" | plus => "+"
  | minus => "-" | star => "*" | slash => "/" | percent => "%" | lt => "<" | gt => ">"
  | bang => "!" | eq => "=" | question => "?" | colon => ":" | semi => ";" | comma => ","
  | dot => "." | lParen => "(" | rParen => ")" | lBracket => "[" | rBracket => "]"
  | lBrace => "\x7b" | rBrace => "\x7d"

end Symbol

namespace Token

/-- How a token is shown in messages. -/
def spelling : Token → String
  | keyword w => w.spelling
  | symbol s => s.spelling
  | floating t => t
  | integer t => t
  | text t => "'" ++ t ++ "'"
  | name t => t

end Token

/-- A token and where it stands. -/
structure Lexeme where
  token : Token
  span : Span
deriving DecidableEq, Inhabited, Repr

end ExprLang
