/-!
# Sets of characters as tables

A set of code points is kept as the increasing list of the places where membership
changes: a code point is inside when an odd number of them lie at or before it.
-/

namespace ComponentSchema.Text

/-- A set of code points, by its bounds. -/
structure CharTable where
  bounds : List Nat

/-- Whether a character is in the set. -/
def CharTable.contains (table : CharTable) (c : Char) : Bool :=
  (table.bounds.takeWhile (· ≤ c.toNat)).length % 2 = 1

end ComponentSchema.Text
