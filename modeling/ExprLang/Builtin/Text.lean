import ExprLang.Builtin.Argument
import ExprLang.Text.CharClass
import ExprLang.Text.Casing
import ExprLang.Text.Search

/-! Methods of objects, texts, truth values, characters and classes. Positions in a text count
characters. -/

namespace ExprLang.Builtin

/-- The methods that every object has. -/
def objectMethods : List Declaration :=
  [query "getClass" [] .cls fun h self _ => .ok ((h.classOf? self).elim .null .cls),
    query "toString" [] .string fun h self _ => .ok (.text (h.display self)),
    query "equals" [.object] booleanType fun h self args => do
      return .bool (h.equal self (← argument args 0))]

/-! ## Texts -/

/-- A result computed from the characters of the receiver. -/
def ofText (name : String) (returns : TypeRef) (f : String → Value) : Declaration :=
  query name [] returns fun h self _ => do return f (← asText h self)

/-- A result computed from the receiver and one more text. -/
def ofTexts (name : String) (returns : TypeRef) (f : String → String → Value) : Declaration :=
  query name [.string] returns fun h self args => do
    let s ← asText h self
    return f s (← asText h (← argument args 0))

/-- The characters from `start` up to `stop`. -/
def substring (cs : List Char) (start stop : Nat) : Except Failure Value :=
  if start > stop || stop > cs.length then
    fail ("begin " ++ toString start ++ ", end " ++ toString stop ++ ", length " ++
      toString cs.length)
  else .ok (.text (String.ofList ((cs.take stop).drop start)))

def indexOf (s sought : String) : Value :=
  match Search.indexOf? sought.toList s.toList with
  | some n => intOf n
  | none => .int (-1)

def contains (s sought : String) : Bool := (Search.indexOf? sought.toList s.toList).isSome

def textMethods : List Declaration :=
  [ofText "length" intType fun s => intOf s.toList.length,
    ofText "isEmpty" booleanType fun s => .bool s.isEmpty,
    ofText "toUpperCase" .string fun s => .text (Casing.upperText s),
    ofText "toLowerCase" .string fun s => .text (Casing.lowerText s),
    ofText "trim" .string fun s => .text (trimBlanks s),
    query "substring" [intType] .string fun h self args => do
      let cs := (← asText h self).toList
      substring cs (← asIndex h (← argument args 0)) cs.length,
    query "substring" [intType, intType] .string fun h self args => do
      let cs := (← asText h self).toList
      let start ← asIndex h (← argument args 0)
      substring cs start (← asIndex h (← argument args 1)),
    query "charAt" [intType] (.primitive .char) fun h self args => do
      let cs := (← asText h self).toList
      let i ← asIndex h (← argument args 0)
      match cs[i]? with
      | some c => pure (.char c)
      | none => fail ("index " ++ toString i ++ " out of bounds for length " ++ toString cs.length),
    ofTexts "indexOf" intType indexOf,
    ofTexts "contains" booleanType fun s t => .bool (contains s t),
    ofTexts "startsWith" booleanType fun s t => .bool (Search.startsWith t.toList s.toList),
    ofTexts "endsWith" booleanType fun s t =>
      .bool (Search.startsWith t.toList.reverse s.toList.reverse),
    ofTexts "concat" .string fun s t => .text (s ++ t),
    query "replace" [.string, .string] .string fun h self args => do
      let s ← asText h self
      let old ← asText h (← argument args 0)
      return .text (Search.replace s old (← asText h (← argument args 1))),
    function "valueOf" [.object] .string fun h args => do
      return .text (h.display (← argument args 0))]

/-! ## Truth values -/

def booleanFields : List StaticField :=
  [⟨"TRUE", .boxed .boolean, .bool true⟩, ⟨"FALSE", .boxed .boolean, .bool false⟩]

def booleanMethods : List Declaration :=
  [function "parseBoolean" [.string] booleanType fun _ args => do
      let v ← argument args 0
      return .bool (v.text?.any fun s => Coercion.asciiLower s == "true"),
    function "valueOf" [booleanType] (.boxed .boolean) first,
    query "booleanValue" [] booleanType fun _ self _ => .ok self]

/-! ## Characters -/

/-- Whether an argument is a character of this class. -/
def isCharacter (name : String) (s : CharClass) : Declaration :=
  function name [.primitive .char] booleanType fun _ args => do
    match ← argument args 0 with
    | .char c => return .bool (s.mem c)
    | _ => return .bool false

def characterMethods : List Declaration :=
  [isCharacter "isDigit" Letter.numeric,
    isCharacter "isLetter" Letter.alphabetic,
    function "toUpperCase" [.primitive .char] (.primitive .char) fun _ args => do
      match ← argument args 0 with
      | .char c => return .char ((Casing.upper c).headD c)
      | v => return v,
    query "charValue" [] (.primitive .char) fun _ self _ => .ok self]

/-! ## Classes -/

def asClass (h : Heap) (v : Value) : Except Failure ClassId :=
  match v with
  | .cls c => .ok c
  | v => mismatch h "Class" v

def classMethods : List Declaration :=
  [query "getName" [] .string fun h self _ => do
      return .text (h.lineage.name (← asClass h self)),
    query "getSimpleName" [] .string fun h self _ => do
      return .text (h.lineage.simpleName (← asClass h self))]

end ExprLang.Builtin
