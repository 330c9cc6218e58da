import ExprLang.Shell.Session
import ExprLang.Text.CharClass

/-! The interactive shell: lines are evaluated, and those that begin with a colon are commands. -/

namespace ExprLang

namespace Dialogue

def version : String := "0.1.0"

def greeting : List String := ["UEL " ++ version, "Type :help for help, :quit to exit.", ""]

def help : List String :=
  ["Commands:",
    "  :help, :h, :?   Show this help",
    "  :quit, :q       Exit the shell",
    "  :beans          List defined beans",
    "  :reclaim        Drop cached expressions",
    "",
    "Examples:",
    "  x = 5",
    "  x * 2 + 1",
    "  double = n -> n * 2; double(x)",
    "  'total: $\x7bx + 1\x7d'   (template text)"]

/-- What the shell says to a line. -/
structure Reply where
  lines : List String
  session : Session
  /-- The fault of the line, for the diagnostic. -/
  fault : Option Fault := none
  /-- The shell ends. -/
  quits : Bool := false

def command (s : Session) (text : String) : Reply :=
  if [":quit", ":q", ":exit"].contains text then { lines := [], session := s, quits := true }
  else if [":help", ":h", ":?"].contains text then { lines := help, session := s }
  else if text == ":beans" then
    { lines := s.beans.map fun (name, value) => "  " ++ name ++ " = " ++ value, session := s }
  else if text == ":reclaim" then { lines := [], session := s.reclaim }
  else { lines := ["Unknown command: " ++ text, "Type :help for help."], session := s }

/-- Evaluates a line; null is not shown. -/
def evaluate (s : Session) (text : String) : Reply :=
  match s.evalLine text with
  | (.value v w, t) => { lines := if v.isNull then [] else [w.heap.display v], session := t }
  | (.fault f _, t) => { lines := [], session := t, fault := some f }
  | (.exhausted, t) => { lines := [], session := t }

/-- Answers a line, without the blanks at its ends. -/
def answer (s : Session) (line : String) : Reply :=
  let text := trimBlanks line
  if text.isEmpty then { lines := [], session := s }
  else if text.toList.head? == some ':' then command s text
  else evaluate s text

/-- All that the shell says to lines, until one ends it. -/
def answerAll (s : Session) : List String → List String
  | [] => []
  | line :: rest =>
    let r := answer s line
    if r.quits then r.lines else r.lines ++ answerAll r.session rest

/-- All that is shown for lines, from the greeting on. -/
def run (s : Settings) (lines : List String) : List String :=
  greeting ++ answerAll (.ofSettings s) lines

end Dialogue

end ExprLang
