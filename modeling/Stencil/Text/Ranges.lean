/-!
# Ranges of code points

A character class beyond ASCII is a list of closed ranges in ascending order. Looking a character
up stops at the first range that starts after it, so the order of the list is part of its meaning.
-/

namespace Stencil

/-- Whether the code point lies in one of the ranges, which stand in ascending order. -/
def inRanges (n : Nat) : List (Nat × Nat) → Bool
  | [] => false
  | (lo, hi) :: rest => if n < lo then false else n ≤ hi || inRanges n rest

end Stencil
