/-!
# Ranges of characters

A class of characters is given by the ranges of its code points, in increasing order.  A range is
its first and its last code point.
-/

namespace Sharding

/-- Whether a code point lies in one of some ranges.  The search ends at the first range that does
not end before it. -/
def inRanges (n : Nat) : List (Nat × Nat) → Bool
  | [] => false
  | (first, last) :: rest => if n ≤ last then first ≤ n else inRanges n rest

end Sharding
