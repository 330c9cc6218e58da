import ExprLang.Node.Parser

/-! Texts with segments: `${..}` is evaluated at once, `#{..}` later. A backslash before a marker
makes it part of the text. -/

namespace ExprLang.Template

/-- The two characters that open a segment, and those that stand for them in plain text. -/
inductive Marker where
  | dynamic | deferred
deriving DecidableEq, Inhabited, Repr

namespace Marker

def spelling : Marker → List Char
  | dynamic => ['$', '\x7b']
  | deferred => ['#', '\x7b']

def wrap : Marker → Node → Node
  | dynamic => .dynamic
  | deferred => .deferred

end Marker

/-- What a text goes on with. -/
inductive Head where
  | escaped (marker : Marker) (rest : List Char)
  | opening (marker : Marker) (rest : List Char)
  | letter (c : Char) (rest : List Char)

def head (c : Char) (rest : List Char) : Head :=
  match c, rest with
  | '\\', '$' :: '\x7b' :: rest' => .escaped .dynamic rest'
  | '\\', '#' :: '\x7b' :: rest' => .escaped .deferred rest'
  | '$', '\x7b' :: rest' => .opening .dynamic rest'
  | '#', '\x7b' :: rest' => .opening .deferred rest'
  | _, _ => .letter c rest

theorem head_shorter {c : Char} {rest : List Char} :
    match head c rest with
    | .escaped _ rest' => rest'.length ≤ rest.length
    | .opening _ rest' => rest'.length ≤ rest.length
    | .letter _ rest' => rest'.length ≤ rest.length := by
  unfold head
  split <;> rename_i h <;> revert h <;> split <;> intro h <;> cases h <;> simp <;> omega

/-- The text read so far, in reverse, as a part of its own. -/
def flush (literal : List Char) (parts : List Node) : List Node :=
  if literal.isEmpty then parts else .plain (String.ofList literal.reverse) :: parts

/-- The parts of `cs`, which starts at byte `offset` of its source, after the characters
`literal`, given in reverse. -/
def partsFrom (offset : Nat) (literal : List Char) (cs : List Char) :
    Except SyntaxError (List Node) :=
  match cs with
  | [] => .ok (flush literal [])
  | c :: rest =>
    match _h : head c rest with
    | .escaped marker rest' => partsFrom (offset + 3) (marker.spelling.reverse ++ literal) rest'
    | .letter d rest' => partsFrom (offset + d.utf8Size) (d :: literal) rest'
    | .opening marker rest' =>
      match _hs : Lexer.segmentFrom (offset + 2) 0 rest' with
      | .error e => .error e
      | .ok segment =>
        match parseTokens segment.lexemes ⟨segment.stop, segment.stop + 1⟩ with
        | .error e => .error e
        | .ok node =>
          match partsFrom (segment.stop + 1) [] segment.rest with
          | .error e => .error e
          | .ok parts => .ok (flush literal (marker.wrap node :: parts))
termination_by cs.length
decreasing_by
  · have := @head_shorter c rest
    rw [_h] at this
    simp only [List.length_cons]
    omega
  · have := @head_shorter c rest
    rw [_h] at this
    simp only [List.length_cons]
    omega
  · have := @head_shorter c rest
    rw [_h] at this
    have := Lexer.segmentFrom_shorter _hs
    simp only [List.length_cons]
    omega

/-- The marker of a part that is a segment. -/
def marker? : Node → Option Marker
  | .dynamic _ => some .dynamic
  | .deferred _ => some .deferred
  | _ => none

/-- The segments among these parts do not all have the same marker. -/
def isMixed (parts : List Node) : Bool :=
  match parts.filterMap marker? with
  | [] => false
  | m :: ms => ms.any (· != m)

/-- The tree of a sequence of parts: a lone segment stands for its expression. -/
def assemble (stop : Nat) : List Node → Except SyntaxError Node
  | [] => .ok (.plain "")
  | [.dynamic body] => .ok body
  | [.deferred body] => .ok body
  | [part] => .ok part
  | parts => if isMixed parts then .error ⟨.mixedMarkers, ⟨0, stop⟩⟩ else .ok (.template parts)

end ExprLang.Template

namespace ExprLang

/-- The tree of a text with segments. -/
def parseTemplate (text : String) : Except SyntaxError Node :=
  match Template.partsFrom 0 [] text.toList with
  | .ok parts => Template.assemble text.utf8ByteSize parts
  | .error e => .error e

end ExprLang
