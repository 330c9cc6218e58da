import ExprLang.Text.Quoted
import ExprLang.Token

/-! The listing of tokens: a line for each, with the name of its kind, its content and its place. -/

namespace ExprLang

def Keyword.label : Keyword → String
  | true => "True" | false => "False" | null => "Null" | empty => "Empty" | not => "Not"
  | and => "And" | or => "Or" | eq => "EqKw" | ne => "NeKw" | lt => "LtKw" | gt => "GtKw"
  | le => "LeKw" | ge => "GeKw" | div => "DivKw" | mod => "ModKw"

def Symbol.label : Symbol → String
  | plusEq => "PlusEq" | arrow => "Arrow" | eqEq => "EqEq" | notEq => "NotEq" | ltEq => "LtEq"
  | gtEq => "GtEq" | ampAmp => "AmpAmp" | pipePipe => "PipePipe" | elvis => "Elvis"
  | questionQuestion => "QuestionQuestion" | plus => "Plus" | minus => "Minus" | star => "Star"
  | slash => "Slash" | percent => "Percent" | lt => "Lt" | gt => "Gt" | bang => "Bang"
  | eq => "Eq" | question => "Question" | colon => "Colon" | semi => "Semi" | comma => "Comma"
  | dot => "Dot" | lParen => "LParen" | rParen => "RParen" | lBracket => "LBracket"
  | rBracket => "RBracket" | lBrace => "LBrace" | rBrace => "RBrace"

namespace Token

/-- The name of the kind of a token. -/
def label : Token → String
  | keyword w => w.label
  | symbol s => s.label
  | floating _ => "FloatLit"
  | integer _ => "IntLit"
  | text _ => "StringLit"
  | name _ => "Ident"

/-- What a token holds beyond its kind. -/
def content? : Token → Option String
  | keyword _ => none
  | symbol _ => none
  | floating t => some t
  | integer t => some t
  | text t => some t
  | name t => some t

end Token

/-- The line for one token. -/
def Lexeme.listing (l : Lexeme) : String :=
  l.token.label ++ ((l.token.content?.map fun t => "(" ++ Quoted.write t ++ ")").getD "") ++ " @ " ++
    l.span.toText

end ExprLang
