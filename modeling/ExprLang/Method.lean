import ExprLang.HostCode

/-! Methods of classes, and which of them a class offers. -/

namespace ExprLang

/-- A method as a class declares it. Unless said otherwise it is public, has a receiver, and takes
nothing. -/
structure Declaration where
  name : String
  /-- The types of the parameters that take one argument each. -/
  fixed : List TypeRef := []
  /-- The type of the arguments that the last parameter gathers in an array, if there is one. -/
  gathers : Option TypeRef := none
  returns : TypeRef := .object
  isStatic : Bool := false
  isPublic : Bool := true
  /-- What runs for a receiver and arguments; abstract methods have nothing. -/
  body : Option (Value → List Value → HostCode) := none

/-- A declared method and its place. -/
structure Method extends Declaration where
  id : MethodId

/-- A public constant of a class. -/
structure StaticField where
  name : String
  type : TypeRef
  value : Value

/-- A part of a record; the method of its name reads it. -/
structure Component where
  name : String
  type : TypeRef

/-- What a class declares itself. -/
structure ClassMembers where
  methods : List Method
  constructors : List Method
  fields : List StaticField
  components : List Component
deriving Inhabited

/-- The name that stands for constructors. -/
def constructorName : String := "<init>"

namespace Method

def params (m : Method) : List TypeRef := m.fixed ++ (m.gathers.map TypeRef.array).toList

def isConstructor (m : Method) : Bool := m.name == constructorName

def isAbstract (m : Method) : Bool := m.body.isNone

/-- The same name and the same parameters. -/
def sameSignature (m n : Method) : Bool := m.name == n.name && m.params == n.params

/-- The name and the types of the parameters. -/
def signature (l : Lineage) (m : Method) : String :=
  m.name ++ "(" ++ String.intercalate ", " (m.params.map l.typeName) ++ ")"

def owner (l : Lineage) (m : Method) : String := l.name m.id.owner

end Method

namespace ClassMembers

/-- Methods at their places in a class. -/
def place (owner : ClassId) (isConstructor : Bool) (ds : List Declaration) : List Method :=
  ds.zipIdx.map fun (d, i) => ⟨d, ⟨owner, isConstructor, i⟩⟩

/-- The members of a class by what it declares. -/
def declare (owner : ClassId) (methods constructors : List Declaration)
    (fields : List StaticField) (components : List Component) : ClassMembers :=
  ⟨place owner false methods, place owner true constructors, fields, components⟩

def field? (c : ClassMembers) (name : String) : Option StaticField :=
  c.fields.find? (·.name == name)

def component? (c : ClassMembers) (name : String) : Option Component :=
  c.components.find? (·.name == name)

end ClassMembers

/-- The members of all classes. -/
structure ClassTable where
  lineage : Lineage
  members : ClassId → ClassMembers

namespace ClassTable

def method? (t : ClassTable) (id : MethodId) : Option Method :=
  let m := t.members id.owner
  (if id.isConstructor then m.constructors else m.methods)[id.index]?

/-- The methods without those whose signature came before. -/
def unhidden (ms : List Method) : List Method :=
  ms.foldl (fun kept m => if kept.any (·.sameSignature m) then kept else kept ++ [m]) []

/-- The public methods of a class and its ancestors. A method hides those of its signature in the
ancestors. -/
def classMethods (t : ClassTable) (c : ClassId) : List Method :=
  unhidden (((t.lineage.ancestors c).flatMap fun k => (t.members k).methods).filter (·.isPublic))

/-- The methods that interfaces provide and the class does not. -/
def defaultMethods (t : ClassTable) (c : ClassId) : List Method :=
  let own := t.classMethods c
  let offered := (t.lineage.allInterfaces c).flatMap fun k => (t.members k).methods
  unhidden (offered.filter fun m =>
    m.isPublic && !m.isStatic && !m.isAbstract && !own.any (·.sameSignature m))

def allMethods (t : ClassTable) (c : ClassId) : List Method :=
  t.classMethods c ++ t.defaultMethods c

end ClassTable

end ExprLang
