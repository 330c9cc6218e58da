import ExprLang.BeanProperty
import ExprLang.Evaluation.Expression
import ExprLang.Overload

/-! How each kind of resolver answers. -/

namespace ExprLang.Resolution

variable (host : Host) (handle : Handler)

/-- The name of a property. -/
def nameOf (h : Heap) (property : Value) : Except Fault String :=
  match property with
  | .null => .error .nullPropertyName
  | v => .ok (h.display v)

/-- Finds the method that a call means and invokes it. -/
def callBest (owner : String) (methods : List Method) (name : String)
    (types : Option (List TypeRef)) (self : Value) (args : List Value) : Action Value := do
  let m ← Action.ofExcept (Overload.find (← Action.heap) owner methods name types args)
  m.invoke host handle self args

/-! ## Names -/

/-- The name that a request without a base asks for. -/
def plainName? : Value → Value → Option String
  | .null, .text s => some s
  | _, _ => none

/-- The name that a request asks for, if the store has it. -/
def knownName? (store : Nat) (base property : Value) : Action (Option String) := do
  let c ← Action.context
  pure ((plainName? base property).filter (c.store store).contains)

/-- Names of a store. A write to an unknown name defines it. -/
def names (store : Nat) {α : Type} (q : Request α) : Action α :=
  match q with
  | .get base property => do
    match ← knownName? store base property with
    | none => pure .null
    | some name =>
      Action.claim base property
      let c ← Action.context
      pure (((c.store store).find? name).getD .null)
  | .type base property => do
    match ← knownName? store base property with
    | none => pure none
    | some _ =>
      Action.claim base property
      pure (some .object)
  | .set base property value => do
    match plainName? base property with
    | none => pure ()
    | some name =>
      Action.claim base property
      Action.modifyContext fun c => c.setStore store ((c.store store).insert name value)
  | .readOnly base property => do
    match ← knownName? store base property with
    | none => pure false
    | some _ =>
      Action.claim base property
      pure false
  | q => pure q.neutral

/-! ## Maps -/

def maps (readOnly : Bool) {α : Type} (q : Request α) : Action α :=
  match q with
  | .get base property =>
    match base with
    | .map a => do
      Action.claim base property
      let h ← Action.heap
      pure ((h.lookup? (h.entries a) property).getD .null)
    | _ => pure .null
  | .type base property =>
    match base with
    | .map _ => do
      Action.claim base property
      pure (some .object)
    | _ => pure none
  | .set base property value =>
    match base with
    | .map a => do
      Action.claim base property
      let h ← Action.heap
      if readOnly then Action.fail (.fixedMap (h.display property))
      else Action.setCells (h.put a (.entries (h.putEntry (h.entries a) property value)))
    | _ => pure ()
  | .readOnly base property =>
    match base with
    | .map _ => do
      Action.claim base property
      pure readOnly
    | _ => pure false
  | q => pure q.neutral

/-! ## Lists and arrays -/

/-- A property as an index. -/
def indexOf (property : Value) : Action Int := do
  let n ← Action.ofExcept (Coercion.toTarget (← Action.heap) Coercion.long property)
  pure n.toInt

/-- The place of an index among so many. -/
def place? (index : Int) (length : Nat) : Option Nat :=
  if 0 ≤ index ∧ index < length then some index.toNat else none

/-- The place of an index, which has to exist. -/
def place (index : Int) (length : Nat) : Action Nat :=
  match place? index length with
  | some i => pure i
  | none => Action.fail (.outOfBounds index length)

def lists (readOnly : Bool) {α : Type} (q : Request α) : Action α :=
  match q with
  | .get base property =>
    match base with
    | .list a => do
      Action.claim base property
      let index ← indexOf property
      let items := (← Action.heap).items a
      pure (((place? index items.length).bind (items[·]?)).getD .null)
    | _ => pure .null
  | .type base property =>
    match base with
    | .list a => do
      Action.claim base property
      let index ← indexOf property
      let _ ← place index ((← Action.heap).items a).length
      pure (some .object)
    | _ => pure none
  | .set base property value =>
    match base with
    | .list a => do
      Action.claim base property
      if readOnly then Action.fail .fixedList
      else
        let index ← indexOf property
        let h ← Action.heap
        let i ← place index (h.items a).length
        Action.setCells (h.put a (.items ((h.items a).set i value)))
    | _ => pure ()
  | .readOnly base property =>
    match base with
    | .list a => do
      Action.claim base property
      let index ← indexOf property
      let _ ← place index ((← Action.heap).items a).length
      pure readOnly
    | _ => pure false
  | q => pure q.neutral

/-- Arrays take only values of their type. -/
def arrays (readOnly : Bool) {α : Type} (q : Request α) : Action α :=
  match q with
  | .get base property =>
    match base with
    | .array a => do
      Action.claim base property
      let index ← indexOf property
      let items := ((← Action.heap).array a).2
      pure (((place? index items.length).bind (items[·]?)).getD .null)
    | _ => pure .null
  | .type base property =>
    match base with
    | .array a => do
      Action.claim base property
      let index ← indexOf property
      let (component, items) := (← Action.heap).array a
      let _ ← place index items.length
      pure (some component)
    | _ => pure none
  | .set base property value =>
    match base with
    | .array a => do
      Action.claim base property
      if readOnly then Action.fail .fixedArray
      else
        let index ← indexOf property
        let h ← Action.heap
        let (component, items) := h.array a
        let i ← place index items.length
        if (h.typeOf? value).all (h.lineage.assignable component) then
          Action.setCells (h.put a (.array component (items.set i value)))
        else Action.fail (Coercion.refusal h value (h.lineage.typeName component))
    | _ => pure ()
  | .readOnly base property =>
    match base with
    | .array a => do
      Action.claim base property
      let index ← indexOf property
      let _ ← place index ((← Action.heap).array a).2.length
      pure readOnly
    | _ => pure false
  | q => pure q.neutral

/-! ## Static members -/

/-- Static fields and methods of a class. Other names are left to the resolvers of objects. -/
def statics {α : Type} (q : Request α) : Action α :=
  match q with
  | .get base property =>
    match base with
    | .cls c => do
      let name ← Action.ofExcept (nameOf (← Action.heap) property)
      if name == "class" then
        Action.claim base property
        pure base
      else
        match (host.classes.members c).field? name with
        | some f =>
          Action.claim base property
          pure f.value
        | none => pure .null
    | _ => pure .null
  | .type base property =>
    match base with
    | .cls c => do
      let name ← Action.ofExcept (nameOf (← Action.heap) property)
      match (host.classes.members c).field? name with
      | some f =>
        Action.claim base property
        pure (some f.type)
      | none => pure none
    | _ => pure none
  | .set base property _ =>
    match base with
    | .cls c => do
      let h ← Action.heap
      let name ← Action.ofExcept (nameOf h property)
      if ((host.classes.members c).field? name).isSome then
        Action.claim base property
        Action.fail (.fixedField (h.lineage.simpleName c) name)
      else pure ()
    | _ => pure ()
  | .readOnly base property =>
    match base with
    | .cls c => do
      let name ← Action.ofExcept (nameOf (← Action.heap) property)
      if ((host.classes.members c).field? name).isSome then Action.claim base property
      pure true
    | _ => pure false
  | .invoke base method types args =>
    match base with
    | .cls c => do
      let h ← Action.heap
      let name ← Action.ofExcept (nameOf h method)
      let candidates :=
        if name == constructorName then (host.classes.members c).constructors
        else (host.classes.allMethods c).filter fun m => m.isStatic && m.name == name
      if candidates.isEmpty then pure .null
      else
        Action.claim base method
        callBest host handle (h.lineage.name c) candidates name types .null args
    | _ => pure .null
  | q => pure q.neutral

/-! ## Records -/

/-- The class of a record. -/
def recordClass? (h : Heap) (base : Value) : Option ClassId :=
  match base with
  | .object a => some (h.owner a) |>.filter fun c => (h.lineage.shape c).kind == .record
  | _ => none

/-- Components of records, which nothing can change. -/
def records {α : Type} (q : Request α) : Action α :=
  match q with
  | .get base property => do
    let h ← Action.heap
    match recordClass? h base with
    | none => pure .null
    | some c =>
      Action.claim base property
      let name ← Action.ofExcept (nameOf h property)
      let reader := (host.classes.allMethods c).find? fun m =>
        m.name == name && m.params.isEmpty && !m.isStatic
      match (host.classes.members c).component? name, reader with
      | some _, some m => m.run host handle base []
      | _, _ => Action.fail (.noComponent (h.lineage.simpleName c) name)
  | .type base property => do
    if (recordClass? (← Action.heap) base).isSome then Action.claim base property
    pure none
  | .set base property _ => do
    let h ← Action.heap
    match recordClass? h base with
    | none => pure ()
    | some c =>
      Action.claim base property
      let name ← Action.ofExcept (nameOf h property)
      let record := h.lineage.simpleName c
      if ((host.classes.members c).component? name).isSome then
        Action.fail (.fixedComponent record name)
      else Action.fail (.noComponent record name)
  | .readOnly base property => do
    if (recordClass? (← Action.heap) base).isSome then Action.claim base property
    pure true
  | q => pure q.neutral

/-! ## Objects -/

/-- The property of this name. -/
def property (h : Heap) (p : BeanProperties) (name : String) : Except Fault BeanProperty :=
  match p.find? name with
  | some q => .ok q
  | none => .error (.noProperty name (h.lineage.name p.owner))

/-- The class of a base that is not null, and the name of the property. -/
def target? (base property : Value) : Action (Option (ClassId × String)) := do
  let h ← Action.heap
  match h.classOf? base with
  | none => pure none
  | some c =>
    let name ← Action.ofExcept (nameOf h property)
    pure (some (c, name))

/-- Properties and methods of objects of all kinds, with these properties of classes. -/
def beansBy (find : ClassId → BeanProperties) (readOnly : Bool) {α : Type} (q : Request α) :
    Action α :=
  match q with
  | .get base prop => do
    match ← target? base prop with
    | none => pure .null
    | some (c, name) =>
      Action.claim base prop
      let h ← Action.heap
      let p ← Action.ofExcept (property h (find c) name)
      match p.reader with
      | some m => m.run host handle base []
      | none => Action.fail (.unreadable name (h.lineage.name c))
  | .type base prop => do
    match ← target? base prop with
    | none => pure none
    | some (c, name) =>
      Action.claim base prop
      let p ← Action.ofExcept (property (← Action.heap) (find c) name)
      pure (if readOnly || p.isReadOnly then none else some p.type)
  | .set base prop value => do
    match ← target? base prop with
    | none => pure ()
    | some (c, name) =>
      Action.claim base prop
      if readOnly then Action.fail (.fixedBean name)
      else
        let h ← Action.heap
        let p ← Action.ofExcept (property h (find c) name)
        match p.writer with
        | some m =>
          let _ ← m.invoke host handle base [value]
          pure ()
        | none => Action.fail (.unwritable name (h.lineage.name c))
  | .readOnly base prop => do
    match ← target? base prop with
    | none => pure false
    | some (c, name) =>
      Action.claim base prop
      if readOnly then pure true
      else
        let p ← Action.ofExcept (property (← Action.heap) (find c) name)
        pure p.isReadOnly
  | .invoke base method types args => do
    match ← target? base method with
    | none => pure .null
    | some (c, name) =>
      Action.claim base method
      callBest host handle ((← Action.heap).lineage.name c) (host.classes.allMethods c) name types
        base args
  | q => pure q.neutral

/-- Properties and methods of objects of all kinds. -/
def beans (readOnly : Bool) {α : Type} (q : Request α) : Action α :=
  beansBy host handle (.ofClass host.classes) readOnly q

/-- The answers of all kinds of resolvers. -/
def answer : Answerer := fun r q =>
  match r with
  | .names store => names store q
  | .statics => statics host handle q
  | .maps readOnly => maps readOnly q
  | .lists readOnly => lists readOnly q
  | .arrays readOnly => arrays readOnly q
  | .records => records host handle q
  | .beans readOnly => beans host handle readOnly q
  | .custom i => host.custom i q
  | .group _ => pure q.neutral

/-- The answer of the chain. -/
def resolve {α : Type} (q : Request α) : Action α := askChain (answer host handle) q

/-! ## Answers that have to be claimed -/

/-- The fault of a property that nothing claims. -/
def unclaimed (h : Heap) (base property : Value) : Fault :=
  if base.isNull then .unresolvedName (h.display property)
  else .unresolvedProperty (h.display property) (h.typeName base)

/-- The answer of the chain to a request for a property, which has to be claimed. -/
def require {α : Type} (base property : Value) (q : Request α) : Action α := do
  let a ← resolve host handle q
  if ← Action.isResolved then pure a
  else Action.fail (unclaimed (← Action.heap) base property)

def get (base property : Value) : Action Value := require host handle base property (.get base property)

def set (base property value : Value) : Action Unit :=
  require host handle base property (.set base property value)

def type (base property : Value) : Action (Option TypeRef) :=
  require host handle base property (.type base property)

def readOnly (base property : Value) : Action Bool :=
  require host handle base property (.readOnly base property)

def invoke (base method : Value) (types : Option (List TypeRef)) (args : List Value) :
    Action Value := do
  let v ← resolve host handle (.invoke base method types args)
  if ← Action.isResolved then pure v
  else
    let h ← Action.heap
    Action.fail (.unresolvedMethod (h.display method) (h.typeName base))

end ExprLang.Resolution
