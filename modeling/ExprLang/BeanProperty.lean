import ExprLang.Bindings
import ExprLang.Method
import ExprLang.Text.Casing

/-! The properties of a class: pairs of methods that read and write a value under one name. -/

namespace ExprLang

structure BeanProperty where
  name : String
  /-- The type that is read, else the one that is written. -/
  type : TypeRef
  reader : Option Method
  writer : Option Method

def BeanProperty.isReadOnly (p : BeanProperty) : Bool := p.writer.isNone

/-- The properties of a class by their names. -/
structure BeanProperties where
  owner : ClassId
  properties : Bindings BeanProperty

namespace BeanProperties

/-- The methods found for one name. -/
structure Accessors where
  /-- Reads a truth value; it takes precedence over other readers. -/
  test : Option Method := none
  reader : Option Method := none
  writers : List Method := []
deriving Inhabited

def isUpper (c : Char) : Bool := Letter.uppercase.mem c

/-- The name of the property that an accessor's name ends in: the first letter, which has to be a
capital, becomes small unless another capital follows. -/
def propertyName? : List Char → Option String
  | [] => none
  | c :: cs =>
    if !isUpper c then none
    else if cs.head?.any isUpper then some (String.ofList (c :: cs))
    else some (String.ofList (Casing.lower c ++ cs))

/-- The rest of a name after the first of these beginnings that it has. -/
def after? (beginning name : String) : Option (List Char) :=
  if beginning.toList.isPrefixOf name.toList then some (name.toList.drop beginning.length) else none

/-- What a method does for a property. -/
inductive Role where
  | test | reader | writer
deriving DecidableEq

/-- The role of a method and the name of its property. -/
def role? (m : Method) : Option (Role × String) :=
  if m.isStatic || !m.isPublic then none
  else
    match after? "is" m.name with
    | some rest =>
      if m.params.isEmpty && m.returns == .primitive .boolean then
        (propertyName? rest).map (.test, ·)
      else none
    | none =>
      match after? "get" m.name with
      | some rest => if m.params.isEmpty then (propertyName? rest).map (.reader, ·) else none
      | none =>
        match after? "set" m.name with
        | some rest =>
          if m.params.length == 1 && m.returns == .void then (propertyName? rest).map (.writer, ·)
          else none
        | none => none

def Accessors.add (a : Accessors) (m : Method) : Role → Accessors
  | .test => { a with test := some m }
  | .reader => { a with reader := some m }
  | .writer => { a with writers := a.writers ++ [m] }

/-- The accessors among these methods. A later reader takes the place of an earlier one. -/
def scan (ms : List Method) : Bindings Accessors :=
  ms.foldl (fun found m =>
    match role? m with
    | some (role, name) => found.insert name (((found.find? name).getD {}).add m role)
    | none => found) []

/-- The type that a writer takes. -/
def written (m : Method) : TypeRef := m.params.headD .object

/-- The last of a chain of writers each of which takes a type that is assignable to the one
before. -/
def narrowest (l : Lineage) (t : TypeRef) (chosen : Option Method) : List Method → Option Method
  | [] => chosen
  | m :: ms =>
    if l.assignable t (written m) then narrowest l (written m) (some m) ms
    else narrowest l t chosen ms

/-- The writer of a property: one that takes exactly what is read, else the narrowest in the order of
the names of the types. -/
def chooseWriter (l : Lineage) (read : Option TypeRef) (writers : List Method) : Option Method :=
  let exact := read.bind fun t => writers.find? fun m => written m == t
  exact.or <|
    let ordered := writers.mergeSort fun m n => l.typeName (written m) ≤ l.typeName (written n)
    let start := read.or (ordered.head?.map written)
    start.bind fun t => narrowest l t none ordered

def Accessors.toProperty? (l : Lineage) (a : Accessors) (name : String) : Option BeanProperty :=
  let reader := a.test.or a.reader
  let read := reader.map (·.returns)
  let writer := chooseWriter l read a.writers
  (read.or (writer.map written)).map fun t => ⟨name, t, reader, writer⟩

def ofMethods (l : Lineage) (ms : List Method) : Bindings BeanProperty :=
  (scan ms).filterMap fun (name, a) => (a.toProperty? l name).map (name, ·)

/-- The properties of a class: those of its methods, and under other names those of the methods that
interfaces provide. -/
def ofClass (t : ClassTable) (c : ClassId) : BeanProperties :=
  let own := ofMethods t.lineage (t.classMethods c)
  let provided := ofMethods t.lineage (t.defaultMethods c)
  ⟨c, provided.override own⟩

def find? (p : BeanProperties) (name : String) : Option BeanProperty := p.properties.find? name

end BeanProperties

end ExprLang
