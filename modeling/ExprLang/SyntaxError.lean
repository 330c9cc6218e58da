import ExprLang.Span
import ExprLang.Text.Quoted

/-! What can be wrong with the text of an expression. -/

namespace ExprLang

/-- Causes of a failure to read a text. -/
inductive SyntaxIssue where
  /-- No token starts with these characters. -/
  | badCharacter (piece : String)
  /-- A segment has no closing brace. -/
  | openSegment
  /-- The expression ends before this token. -/
  | trailing (token : String)
  /-- Another token, or the end of the expression, stands where `what` should. -/
  | expected (what : String) (found : Option String)
  /-- One literal holds set items and map entries. -/
  | mixedEntries
  /-- One text holds segments of both kinds. -/
  | mixedMarkers
deriving DecidableEq, Inhabited, Repr

/-- A failure to read a text, and where. -/
structure SyntaxError where
  issue : SyntaxIssue
  span : Span
deriving DecidableEq, Inhabited, Repr

def SyntaxIssue.message : SyntaxIssue → String
  | badCharacter piece => "unexpected character: " ++ Quoted.write piece
  | openSegment => "unterminated expression, expected '\x7d'"
  | trailing token => "unexpected token '" ++ token ++ "'"
  | expected what (some token) => "expected " ++ what ++ ", found '" ++ token ++ "'"
  | expected what none => "expected " ++ what ++ ", found end of expression"
  | mixedEntries => "cannot mix set and map entries in one literal"
  | mixedMarkers => "cannot mix $\x7b\x7d and #\x7b\x7d in one expression"

end ExprLang
