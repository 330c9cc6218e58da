import ExprLang.Fault
import ExprLang.Heap

/-! The code behind methods: what it computes and what it asks of the context it runs in. -/

namespace ExprLang

inductive HostCode where
  | finish (r : Except Failure Value)
  | read (next : Heap → HostCode)
  | write (h : Heap) (next : HostCode)
  /-- Asks for a named value of the context. -/
  | bean (name : String) (next : Option Value → HostCode)
  | call (f : Closure) (args : List Value) (next : Except Fault Value → HostCode)
  /-- Reads the value of an expression, given as text. -/
  | evaluate (text : String) (next : Except Fault Value → HostCode)
  | typeOf (text : String) (next : Except Fault (Option TypeRef) → HostCode)
  | readOnly (text : String) (next : Except Fault Bool → HostCode)
  | assign (text : String) (v : Value) (next : Except Fault Unit → HostCode)

namespace HostCode

def succeed (v : Value) : HostCode := finish (.ok v)

def fail (text : String) : HostCode := finish (.error (.plain text))

/-- Ends with a result of the language. -/
def conclude (r : Except Fault Value) : HostCode := finish (r.mapError .fault)

/-- Code that only looks at the heap. -/
def look (f : Heap → Except Failure Value) : HostCode := read fun h => finish (f h)

/-- Code that changes the heap where it succeeds. -/
def change (f : Heap → Except Failure (Value × Heap)) : HostCode :=
  read fun h =>
    match f h with
    | .ok (v, h) => write h (succeed v)
    | .error e => finish (.error e)

end HostCode

end ExprLang
