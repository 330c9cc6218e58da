/-! Ranges of byte offsets in a source text. -/

namespace ExprLang

/-- A range of byte offsets: `start` is inside, `stop` is not. -/
structure Span where
  start : Nat
  stop : Nat
deriving DecidableEq, Inhabited, Repr

namespace Span

/-- The least range around two ranges. -/
def merge (a b : Span) : Span := ⟨min a.start b.start, max a.stop b.stop⟩

def shift (a : Span) (distance : Nat) : Span := ⟨a.start + distance, a.stop + distance⟩

def length (a : Span) : Nat := a.stop - a.start

def toText (a : Span) : String := s!"{a.start}..{a.stop}"

/-- An empty range. -/
def point (offset : Nat) : Span := ⟨offset, offset⟩

end Span

end ExprLang
