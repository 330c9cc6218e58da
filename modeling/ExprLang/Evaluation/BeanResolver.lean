import ExprLang.Cache
import ExprLang.Evaluation.Resolution

/-! Resolvers of beans with what they keep: the properties of a class are worked out only once,
unless they are reclaimed. -/

namespace ExprLang

structure BeanResolver where
  readOnly : Bool
  classes : Cache ClassId BeanProperties

namespace BeanResolver

def ofCapacity (readOnly : Bool) (n : Nat) : BeanResolver := ⟨readOnly, .empty n⟩

/-- The properties of a class. -/
def properties (t : ClassTable) (c : ClassId) (r : BeanResolver) : BeanProperties × BeanResolver :=
  match r.classes.get c with
  | (some p, classes) => (p, { r with classes := classes })
  | (none, classes) =>
    let (p, classes) := classes.putIfAbsent c (.ofClass t c)
    (p, { r with classes := classes })

def reclaim (c : ClassId) (r : BeanResolver) : BeanResolver :=
  { r with classes := r.classes.reclaim c }

def reclaimAll (r : BeanResolver) : BeanResolver := { r with classes := r.classes.reclaimAll }

/-- The number of classes whose properties are kept. -/
def length (r : BeanResolver) : Nat × BeanResolver :=
  let (n, classes) := r.classes.length
  (n, { r with classes := classes })

/-! ## Requests -/

/-- The class whose properties a request looks up. The property has to have a name, but not to
exist. -/
def consulted? (h : Heap) {α : Type} (q : Request α) : Option ClassId :=
  let named (base property : Value) : Option ClassId :=
    (h.classOf? base).filter fun _ => (Resolution.nameOf h property).isOk
  match q with
  | .get base property => named base property
  | .type base property => named base property
  | .set base property _ => named base property
  | .readOnly base property => named base property
  | .invoke _ _ _ _ => none
  | .convert _ _ => none

/-- The resolver once it was asked. -/
def asked (t : ClassTable) (h : Heap) {α : Type} (q : Request α) (r : BeanResolver) : BeanResolver :=
  match consulted? h q with
  | some c => (r.properties t c).2
  | none => r

/-- The answer to a request, and the resolver afterwards. -/
def answer (host : Host) (handle : Handler) {α : Type} (q : Request α) (r : BeanResolver)
    (w : World) : Outcome α × BeanResolver :=
  (Resolution.beansBy host handle (fun c => (r.properties host.classes c).1) r.readOnly q w,
    r.asked host.classes w.heap q)

end BeanResolver

end ExprLang
