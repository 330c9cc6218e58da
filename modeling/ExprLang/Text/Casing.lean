import ExprLang.Text.CaseTable
import ExprLang.Text.Letter

/-! Upper and lower case of characters and texts. -/

namespace ExprLang.Casing

/-- The character that the rows map `c` to. -/
def single? (rows : Array Int) (c : Char) : Option Char :=
  let n : Int := c.toNat
  (List.range (rows.size / 4)).findSome? fun i =>
    let first := rows.getD (4 * i) 0
    let last := rows.getD (4 * i + 1) 0
    let stride := rows.getD (4 * i + 2) 1
    if first ≤ n && n ≤ last && (n - first) % stride == 0 then
      some (Char.ofNat (n + rows.getD (4 * i + 3) 0).toNat)
    else none

def mapped (rows : Array Int) (long : List (Nat × String)) (c : Char) : List Char :=
  match long.find? (·.1 == c.toNat) with
  | some (_, text) => text.toList
  | none => [(single? rows c).getD c]

def upper (c : Char) : List Char := mapped CaseTable.upperRows CaseTable.upperLong c

def lower (c : Char) : List Char := mapped CaseTable.lowerRows CaseTable.lowerLong c

def upperText (s : String) : String := String.ofList (s.toList.flatMap upper)

/-- The first character that a case mapping does not pass over is a cased one. -/
def meetsCased (cs : List Char) : Bool :=
  match cs.dropWhile Letter.caseIgnorable.mem with
  | [] => false
  | c :: _ => Letter.cased.mem c

/-- The lower case of a text after the characters `before`, nearest first. A capital sigma at
the end of a word becomes a final sigma. -/
def lowerAfter (before : List Char) : List Char → List Char
  | [] => []
  | c :: rest =>
    let here :=
      if c == 'Σ' then
        if meetsCased before && !meetsCased rest then ['ς'] else ['σ']
      else lower c
    here ++ lowerAfter (c :: before) rest

def lowerText (s : String) : String := String.ofList (lowerAfter [] s.toList)

end ExprLang.Casing
