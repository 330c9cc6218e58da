import ExprLang.SyntaxError

/-! Why an operation on expressions or values fails, and the words for it. -/

namespace ExprLang

inductive FaultKind where
  | propertyNotFound | propertyNotWritable | methodNotFound | coercion | evaluation
  | unsupported | parse | config
deriving DecidableEq, Inhabited, Repr

mutual

/-- Causes of failures of the language. Names of types and texts of values are as shown. -/
inductive Fault where
  -- a property cannot be found or read
  | nullPropertyName
  | noProperty (name type : String)
  | unreadable (name type : String)
  | outOfBounds (index : Int) (length : Nat)
  | noComponent (record name : String)
  | nullBase (base : String)
  | nullStep (step : String)
  | unresolvedName (name : String)
  | unresolvedProperty (name type : String)
  -- a property cannot be written
  | fixedValue (text : String)
  | fixedMap (key : String)
  | fixedList
  | fixedArray
  | fixedComponent (record name : String)
  | fixedField (cls name : String)
  | fixedBean (name : String)
  | unwritable (name type : String)
  | lambdaParameter (name : String)
  | callResult
  -- a method cannot be found or chosen
  | abstractMethod (type signature : String)
  | unmappedFunction (key : String)
  | unknownFunction (key : String)
  | noMember (type name : String)
  | noOverload (call : String)
  | ambiguousCall (call : String)
  | wrongCount (signature : String) (expected given : Nat)
  | unresolvedMethod (name type : String)
  | nullMethod (name : String)
  | lostMethod (type name : String) (params : List String)
  /-- A value has no counterpart in a type. -/
  | coercion (value source target : String)
  -- an evaluation goes wrong
  | divisionByZero
  | remainderByZero
  | modulusNotPositive
  | emptyPath
  | noArgumentList (key : String)
  | notCallable (name type : String)
  | notMethod (name type : String)
  | badInteger (text : String)
  | badFloating (text : String)
  | functionCount (key : String) (expected given : Nat)
  | notMethodText (text kind : String)
  | noStaticMember (type name : String)
  | unreadableForm
  | holdsMethod
  | holdsValue
  | unknownType (name : String)
  | unknownClass (name : String)
  /-- Code of the host failed with something that is no fault of the language. -/
  | raised (f : Failure)
  -- an operation does not apply
  | notAssignable (kind : String)
  | notInvocable (kind : String)
  | namesNoMethod (kind : String)
  | notPortable (type : String)
  | noLocalBeans
  -- other
  | parse (e : SyntaxError)
  | unreadableConfig
  /-- A fault that the host worded itself, and where it lies if it is one of parsing. -/
  | stated (kind : FaultKind) (text : String) (span : Option Span)

/-- Failures of the host's code. -/
inductive Failure where
  | plain (text : String)
  /-- A failure that names another one as its source. -/
  | wrapped (text : String) (source : Failure)
  | fault (f : Fault)

end

instance : Inhabited Fault := ⟨.fixedList⟩

namespace Fault

def kind : Fault → FaultKind
  | nullPropertyName => .propertyNotFound
  | noProperty _ _ => .propertyNotFound
  | unreadable _ _ => .propertyNotFound
  | outOfBounds _ _ => .propertyNotFound
  | noComponent _ _ => .propertyNotFound
  | nullBase _ => .propertyNotFound
  | nullStep _ => .propertyNotFound
  | unresolvedName _ => .propertyNotFound
  | unresolvedProperty _ _ => .propertyNotFound
  | fixedValue _ => .propertyNotWritable
  | fixedMap _ => .propertyNotWritable
  | fixedList => .propertyNotWritable
  | fixedArray => .propertyNotWritable
  | fixedComponent _ _ => .propertyNotWritable
  | fixedField _ _ => .propertyNotWritable
  | fixedBean _ => .propertyNotWritable
  | unwritable _ _ => .propertyNotWritable
  | lambdaParameter _ => .propertyNotWritable
  | callResult => .propertyNotWritable
  | abstractMethod _ _ => .methodNotFound
  | unmappedFunction _ => .methodNotFound
  | unknownFunction _ => .methodNotFound
  | noMember _ _ => .methodNotFound
  | noOverload _ => .methodNotFound
  | ambiguousCall _ => .methodNotFound
  | wrongCount _ _ _ => .methodNotFound
  | unresolvedMethod _ _ => .methodNotFound
  | nullMethod _ => .methodNotFound
  | lostMethod _ _ _ => .methodNotFound
  | coercion _ _ _ => .coercion
  | divisionByZero => .evaluation
  | remainderByZero => .evaluation
  | modulusNotPositive => .evaluation
  | emptyPath => .evaluation
  | noArgumentList _ => .evaluation
  | notCallable _ _ => .evaluation
  | notMethod _ _ => .evaluation
  | badInteger _ => .evaluation
  | badFloating _ => .evaluation
  | functionCount _ _ _ => .evaluation
  | notMethodText _ _ => .evaluation
  | noStaticMember _ _ => .evaluation
  | unreadableForm => .evaluation
  | holdsMethod => .evaluation
  | holdsValue => .evaluation
  | unknownType _ => .evaluation
  | unknownClass _ => .evaluation
  | raised _ => .evaluation
  | notAssignable _ => .unsupported
  | notInvocable _ => .unsupported
  | namesNoMethod _ => .unsupported
  | notPortable _ => .unsupported
  | noLocalBeans => .unsupported
  | parse _ => .parse
  | unreadableConfig => .config
  | stated k _ _ => k

def span? : Fault → Option Span
  | parse e => some e.span
  | stated _ _ s => s
  | _ => none

end Fault

mutual

/-- What a fault says, without the words that tell its kind. -/
def Fault.message : Fault → String
  | .nullPropertyName => "null property name"
  | .noProperty name type => "property '" ++ name ++ "' not found on type " ++ type
  | .unreadable name type => "property '" ++ name ++ "' is not readable on type " ++ type
  | .outOfBounds index length =>
    "index " ++ toString index ++ " out of bounds for length " ++ toString length
  | .noComponent record name => "record " ++ record ++ " has no component '" ++ name ++ "'"
  | .nullBase base => "target unreachable, base expression '" ++ base ++ "' is null"
  | .nullStep step => "target unreachable, '" ++ step ++ "' is null"
  | .unresolvedName name => "identifier '" ++ name ++ "' cannot be resolved"
  | .unresolvedProperty name type => "property '" ++ name ++ "' not found on " ++ type
  | .fixedValue text => "literal expression '" ++ text ++ "' cannot be assigned"
  | .fixedMap key => "map is read-only, cannot put " ++ key
  | .fixedList => "list is read-only"
  | .fixedArray => "array is read-only"
  | .fixedComponent record name => "record component " ++ record ++ "." ++ name ++ " is immutable"
  | .fixedField cls name => "cannot write static field " ++ cls ++ "." ++ name
  | .fixedBean name => "resolver is read-only, cannot set '" ++ name ++ "'"
  | .unwritable name type => "property '" ++ name ++ "' is not writable on type " ++ type
  | .lambdaParameter name => "lambda parameter '" ++ name ++ "' cannot be assigned"
  | .callResult => "the result of a method call cannot be assigned"
  | .abstractMethod type signature => type ++ "." ++ signature ++ " is abstract"
  | .unmappedFunction key => "function '" ++ key ++ "' is not mapped"
  | .unknownFunction key => "function '" ++ key ++ "' not found"
  | .noMember type name => type ++ "." ++ name ++ " does not exist"
  | .noOverload call => call
  | .ambiguousCall call => "ambiguous call " ++ call
  | .wrongCount signature expected given =>
    signature ++ " expects " ++ toString expected ++ " arguments, got " ++ toString given
  | .unresolvedMethod name type => "method '" ++ name ++ "' not found on " ++ type
  | .nullMethod name => "identifier '" ++ name ++ "' is null"
  | .lostMethod type name params =>
    type ++ "." ++ name ++ "(" ++ String.intercalate ", " params ++ ")"
  | .coercion value source target =>
    "cannot coerce " ++ value ++ " of type " ++ source ++ " to " ++ target
  | .divisionByZero => "division by zero"
  | .remainderByZero => "/ by zero"
  | .modulusNotPositive => "BigInteger: modulus not positive"
  | .emptyPath => "value path has no property"
  | .noArgumentList key => "function '" ++ key ++ "' has no argument list"
  | .notCallable name type => "'" ++ name ++ "' produced " ++ type ++ ", which cannot be called"
  | .notMethod name type =>
    "identifier '" ++ name ++ "' holds " ++ type ++ ", not a method expression"
  | .badInteger text => "invalid integer literal '" ++ text ++ "'"
  | .badFloating text => "invalid floating point literal '" ++ text ++ "'"
  | .functionCount key expected given =>
    "function '" ++ key ++ "' takes " ++ toString expected ++ " arguments, got " ++ toString given
  | .notMethodText text kind =>
    "'" ++ text ++ "' is not a valid method expression: found " ++ kind
  | .noStaticMember type name => type ++ " has no static member '" ++ name ++ "'"
  | .unreadableForm => "invalid expression form"
  | .holdsMethod => "form holds a method expression"
  | .holdsValue => "form holds a value expression"
  | .unknownType name => "unknown type '" ++ name ++ "'"
  | .unknownClass name => "unknown class '" ++ name ++ "'"
  | .raised f => f.rootText
  | .notAssignable kind => "cannot assign to " ++ kind
  | .notInvocable kind => kind ++ " cannot be invoked as a method"
  | .namesNoMethod kind => kind ++ " does not name a method"
  | .notPortable type => "literal of type " ++ type ++ " cannot be externalized"
  | .noLocalBeans => "context has no local bean resolver"
  | .parse e => e.issue.message
  | .unreadableConfig => "unreadable settings"
  | .stated _ text _ => text

/-- The text of the failure at the end of the chain of sources. -/
def Failure.rootText : Failure → String
  | .plain text => text
  | .wrapped _ source => source.rootText
  | .fault f => f.message

end

namespace Fault

/-- The text of a fault as it is shown. -/
def text (f : Fault) : String :=
  match f.kind with
  | .propertyNotFound => "property not found: " ++ f.message
  | .propertyNotWritable => "property not writable: " ++ f.message
  | .methodNotFound => "method not found: " ++ f.message
  | .unsupported => "unsupported operation: " ++ f.message
  | .config => "config error: " ++ f.message
  | .parse =>
    match f.span? with
    | some s => "parse error at " ++ s.toText ++ ": " ++ f.message
    | none => f.message
  | _ => f.message

end Fault

/-! ## Failures of the host's code as faults -/

mutual

/-- The failure at the end of the chain of sources. -/
def Failure.root : Failure → Failure
  | .plain text => .plain text
  | .wrapped _ source => source.root
  | .fault f => f.rootFailure

def Fault.rootFailure : Fault → Failure
  | .raised f => f.root
  | f => .fault f

end

namespace Failure

/-- The text of a failure as it is shown. -/
def text : Failure → String
  | plain t => t
  | wrapped t _ => t
  | fault f => f.text

/-- A fault at the top or at the end of the chain is the fault; any other failure is one of
evaluation, with the words of its root. -/
def toFault : Failure → Fault
  | .fault f => f
  | f =>
    match f.root with
    | .fault g => g
    | _ => .raised f

end Failure

/-- The failure at the end of the chain behind a fault that the host's code raised. -/
def Fault.rootCause? : Fault → Option Failure
  | .raised f => some f.root
  | _ => none

/-- The failure that a fault stems from. -/
def Fault.source? : Fault → Option Failure
  | .raised f => some f
  | _ => none

end ExprLang
