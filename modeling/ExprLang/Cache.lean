/-! Caches of bounded size. A reclaimed entry leaves before the next operation; a new key beyond the
capacity reclaims the key that was admitted first. -/

namespace ExprLang

structure Cache (κ α : Type) where
  capacity : Nat
  entries : List (κ × α)
  /-- Keys in the order of their admission. -/
  admitted : List κ
  /-- Keys whose entries are to leave. -/
  reclaimed : List κ
  /-- How many keys are to leave. -/
  pending : Nat

namespace Cache
variable {κ α ε : Type} [DecidableEq κ]

def empty (capacity : Nat) : Cache κ α := ⟨capacity, [], [], [], 0⟩

/-- Lets the entries of these keys leave before the next operation. -/
def enqueue (c : Cache κ α) (ks : List κ) : Cache κ α :=
  { c with reclaimed := c.reclaimed ++ ks, pending := (c.reclaimed ++ ks).length }

/-- The cache without its reclaimed entries. The queue is looked at only where keys are pending. -/
def drain (c : Cache κ α) : Cache κ α :=
  if c.pending = 0 then c
  else
    { c with
      entries := c.entries.filter fun e => e.1 ∉ c.reclaimed
      admitted := c.admitted.filter fun k => k ∉ c.reclaimed
      reclaimed := []
      pending := 0 }

def find? (c : Cache κ α) (k : κ) : Option α := (c.entries.find? (·.1 = k)).map (·.2)

/-- Adds an entry of a new key, and reclaims the oldest one where there are too many. -/
def enter (c : Cache κ α) (k : κ) (a : α) : Cache κ α :=
  let c := { c with entries := c.entries ++ [(k, a)] }
  match c.admitted ++ [k] with
  | [] => c
  | oldest :: rest =>
    if c.capacity < rest.length + 1 then
      { c with admitted := rest }.enqueue [oldest]
    else { c with admitted := oldest :: rest }

/-- The number of entries. -/
def length (c : Cache κ α) : Nat × Cache κ α := (c.drain.entries.length, c.drain)

def get (c : Cache κ α) (k : κ) : Option α × Cache κ α := (c.drain.find? k, c.drain)

/-- Stores a value. A key that is there keeps its place in the order. -/
def put (c : Cache κ α) (k : κ) (a : α) : Cache κ α :=
  let c := c.drain
  if (c.find? k).isSome then
    { c with entries := c.entries.map fun e => if e.1 = k then (k, a) else e }
  else c.enter k a

/-- Stores a value unless there is one, and gives the value that is there. -/
def putIfAbsent (c : Cache κ α) (k : κ) (a : α) : α × Cache κ α :=
  let c := c.drain
  match c.find? k with
  | some b => (b, c)
  | none => (a, c.enter k a)

/-- The value that is there, else the computed one, which is stored unless the computation
fails. -/
def getOrCompute (c : Cache κ α) (k : κ) (compute : Unit → Except ε α) : Except ε α × Cache κ α :=
  match c.get k with
  | (some a, c) => (.ok a, c)
  | (none, c) =>
    match compute () with
    | .ok a =>
      let (b, c) := c.putIfAbsent k a
      (.ok b, c)
    | .error e => (.error e, c)

def reclaim (c : Cache κ α) (k : κ) : Cache κ α :=
  if (c.find? k).isSome then c.enqueue [k] else c

def reclaimAll (c : Cache κ α) : Cache κ α := c.enqueue (c.entries.map (·.1))

/-- The text of a cache with its name; entries count while they are not drained. -/
def describe (c : Cache κ α) (name : String) : String :=
  "SoftCache \x7b name: \"" ++ name ++ "\", capacity: " ++ toString c.capacity ++ ", entries: " ++
    toString c.entries.length ++ " \x7d"

end Cache

end ExprLang
