import ExprLang.Method

/-! Classes and static members that have a simple name in expressions. -/

namespace ExprLang

/-- Classes by simple names, and the classes that names of static members stand for. -/
structure Imports where
  classes : Bindings ClassId
  statics : Bindings ClassId
deriving Inhabited

namespace Imports

def none : Imports := ⟨[], []⟩

def addClass (i : Imports) (l : Lineage) (c : ClassId) : Imports :=
  { i with classes := i.classes.insert (l.simpleName c) c }

/-- The class has a static field or a static method of this name. -/
def isStaticMember (t : ClassTable) (c : ClassId) (name : String) : Bool :=
  ((t.members c).field? name).isSome || (t.allMethods c).any fun m => m.isStatic && m.name == name

/-- Imports a static member, which has to exist. -/
def addStatic (i : Imports) (t : ClassTable) (c : ClassId) (name : String) : Except Fault Imports :=
  if isStaticMember t c name then .ok { i with statics := i.statics.insert name c }
  else .error (.noStaticMember (t.lineage.name c) name)

/-- All builtin classes. -/
def builtins : Imports :=
  Builtin.all.foldl (fun i b => { i with classes := i.classes.insert (simpleName b.name) (.builtin b) })
    none

end Imports

end ExprLang
