/-! Finding a text inside another one, counted in characters. -/

namespace ExprLang.Search

/-- The text begins with the sought one. -/
def startsWith (sought : List Char) (s : List Char) : Bool := sought.isPrefixOf s

/-- The number of characters before the first occurrence. -/
def indexOf? (sought : List Char) : List Char → Option Nat
  | [] => if sought.isEmpty then some 0 else none
  | c :: cs =>
    if startsWith sought (c :: cs) then some 0 else (indexOf? sought cs).map (· + 1)

/-- Puts `new` in place of the occurrences of a text that is not empty, from the left; the next
`skip` characters belong to one already replaced. -/
def replaceAll (old new : List Char) (skip : Nat) : List Char → List Char
  | [] => []
  | c :: cs =>
    match skip with
    | skip + 1 => replaceAll old new skip cs
    | 0 =>
      if startsWith old (c :: cs) then new ++ replaceAll old new (old.length - 1) cs
      else c :: replaceAll old new 0 cs

/-- The text with `new` in place of `old`. The empty text occurs around every character. -/
def replace (s old new : String) : String :=
  if old.isEmpty then
    String.ofList (new.toList ++ s.toList.flatMap fun c => c :: new.toList)
  else String.ofList (replaceAll old.toList new.toList 0 s.toList)

end ExprLang.Search
