/-!
# Ranges of characters

A class of characters is given by the ranges of its numbers, in increasing order.
-/

namespace KWayMerge.Text

/-- The first and last character numbers of the ranges of a class. -/
abbrev CharRanges := List (Nat × Nat)

/-- Whether a character is in one of the ranges. -/
def inRanges (ranges : CharRanges) (c : Char) : Bool :=
  ranges.any fun range => range.1 ≤ c.toNat && c.toNat ≤ range.2

end KWayMerge.Text
