/-! Classes of characters, given by the code points where membership changes, and white space in the sense
of Unicode, with trimming. -/

namespace ExprLang

/-- A class of characters. A code point belongs to it when an odd number of switches stand at
or below it. -/
structure CharClass where
  switches : Array Nat

namespace CharClass

/-- The number of switches at or below a code point, by bisection of the ascending table
between `low` and `high`. -/
def countBelow (table : Array Nat) (code : Nat) : Nat → Nat → Nat → Nat
  | 0, low, _ => low
  | fuel + 1, low, high =>
    if low < high then
      let middle := (low + high) / 2
      if table.getD middle 0 ≤ code then countBelow table code fuel (middle + 1) high
      else countBelow table code fuel low middle
    else low

def mem (s : CharClass) (c : Char) : Bool :=
  countBelow s.switches c.toNat s.switches.size 0 s.switches.size % 2 == 1

end CharClass

/-! ## White space -/

/-- Characters with the property White_Space. -/
def isBlank (c : Char) : Bool :=
  let n := c.toNat
  (9 ≤ n && n ≤ 13) || n == 0x20 || n == 0x85 || n == 0xa0 || n == 0x1680 ||
    (0x2000 ≤ n && n ≤ 0x200a) || n == 0x2028 || n == 0x2029 || n == 0x202f || n == 0x205f ||
    n == 0x3000

/-- A text without the white space at its two ends. -/
def trimBlanks (s : String) : String :=
  String.ofList (((s.toList.dropWhile isBlank).reverse.dropWhile isBlank).reverse)

end ExprLang
