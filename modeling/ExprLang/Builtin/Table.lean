import ExprLang.Builtin.Collection
import ExprLang.Builtin.Number
import ExprLang.Builtin.Text

/-! The members of the builtin classes. -/

namespace ExprLang.Builtin

def methods : Builtin → List Declaration
  | object => objectMethods | string => textMethods | boolean => booleanMethods
  | character => characterMethods | number => numberMethods | byte => byteMethods
  | short => shortMethods | integer => integerMethods | long => longMethods
  | float => floatMethods | double => doubleMethods | bigInteger => bigMethods
  | bigDecimal => decimalMethods | math => mathMethods | list => listMethods
  | set => setMethods | map => mapMethods | instant => instantMethods
  | cls => classMethods | lambda => lambdaMethods

def constructors : Builtin → List Declaration
  | integer => integerConstructors | long => longConstructors | double => doubleConstructors
  | bigInteger => bigConstructors | bigDecimal => decimalConstructors
  | _ => []

def fields : Builtin → List StaticField
  | boolean => booleanFields | byte => byteFields | short => shortFields
  | integer => integerFields | long => longFields | float => floatFields
  | double => doubleFields | bigInteger => bigFields | bigDecimal => decimalFields
  | math => mathFields
  | _ => []

def members (b : Builtin) : ClassMembers :=
  .declare (.builtin b) b.methods b.constructors b.fields []

end ExprLang.Builtin

namespace ExprLang

/-- A class that the host defines. -/
structure HostClass where
  shape : ClassShape
  members : ClassMembers
deriving Inhabited

/-- The builtin classes and those of the host. -/
def ClassTable.ofHost (classes : Array HostClass) : ClassTable where
  lineage := ⟨classes.map (·.shape)⟩
  members c :=
    match c with
    | .builtin b => b.members
    | .host n => (classes.getD n default).members

end ExprLang
