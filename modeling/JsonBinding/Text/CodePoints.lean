/-!
# Sets of code points

A set of code points is given by its switch points in ascending order: the first code point inside,
the first one outside again, and so on. A code point lies inside when the number of switch points
at or below it is odd (`inside`).
-/

namespace JsonBinding.Text

/-- Whether a character lies in the set with these switch points. -/
def inside (points : List Nat) (c : Char) : Bool :=
  points.countP (· ≤ c.toNat) % 2 == 1

end JsonBinding.Text
