/-!
# Sets of characters as ranges

A set of characters is a list of ranges of code points, both ends included.
-/

namespace Pivotal.Text

/-- Whether a code point lies in one of the ranges. -/
def inRanges (ranges : Array (Nat × Nat)) (c : Char) : Bool :=
  ranges.any fun r => r.1 ≤ c.toNat && c.toNat ≤ r.2

end Pivotal.Text
