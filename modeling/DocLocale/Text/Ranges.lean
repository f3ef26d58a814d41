/-!
Sets of characters given by a sorted table of code points. The table lists the points where
membership changes, so a character belongs to the set when an odd number of them lie at or below it.
-/

set_option autoImplicit false
set_option relaxedAutoImplicit false

namespace DocLocale.Text

/-- A set of code points, stored as the increasing list of points where membership flips:
`#[a, b, c, d]` stands for the half-open runs `[a, b)` and `[c, d)`. -/
structure Ranges where
  bounds : Array Nat

namespace Ranges

/-- Bisection for the number of bounds at or below `x`, knowing it lies between `lo` and `hi`. -/
def rankBetween (bounds : Array Nat) (x lo hi : Nat) : Nat :=
  if lo < hi then
    let mid := (lo + hi) / 2
    if bounds.getD mid 0 ≤ x then rankBetween bounds x (mid + 1) hi
    else rankBetween bounds x lo mid
  else lo
termination_by hi - lo
decreasing_by all_goals omega

/-- The number of bounds at or below `x` in an increasing table. -/
def rank (r : Ranges) (x : Nat) : Nat := rankBetween r.bounds x 0 r.bounds.size

/-- Membership of a character. -/
def mem (r : Ranges) (c : Char) : Bool := r.rank c.toNat % 2 = 1

end Ranges

end DocLocale.Text
