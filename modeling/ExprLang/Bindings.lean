/-! Finite maps from names, as lists in ascending order of the names. -/

namespace ExprLang

abbrev Bindings (α : Type) := List (String × α)

namespace Bindings
variable {α : Type}

def find? (b : Bindings α) (name : String) : Option α :=
  match b with
  | [] => none
  | (n, a) :: rest => if n == name then some a else find? rest name

def contains (b : Bindings α) (name : String) : Bool := (b.find? name).isSome

/-- Binds a name, or binds it anew. -/
def insert (b : Bindings α) (name : String) (a : α) : Bindings α :=
  match b with
  | [] => [(name, a)]
  | (n, c) :: rest =>
    if n == name then (name, a) :: rest
    else if name < n then (name, a) :: (n, c) :: rest
    else (n, c) :: insert rest name a

def erase (b : Bindings α) (name : String) : Bindings α := b.filter fun e => !(e.1 == name)

def names (b : Bindings α) : List String := b.map (·.1)

/-- The bindings of both; those of the second take precedence. -/
def override (b c : Bindings α) : Bindings α := c.foldl (fun b e => b.insert e.1 e.2) b

theorem find?_insert (b : Bindings α) (name other : String) (a : α) :
    (b.insert name a).find? other = if name = other then some a else b.find? other := by
  induction b with
  | nil => by_cases h : name = other <;> simp [insert, find?, h]
  | cons e rest ih =>
    obtain ⟨n, c⟩ := e
    simp only [insert, beq_iff_eq]
    split
    · next h => subst h; by_cases h2 : n = other <;> simp [find?, h2]
    · next h =>
      split
      · by_cases h2 : name = other <;> simp [find?, h2]
      · by_cases h2 : n = other
        · subst h2; simp [find?, Ne.symm h]
        · simp [find?, h2, ih]

end Bindings

end ExprLang
