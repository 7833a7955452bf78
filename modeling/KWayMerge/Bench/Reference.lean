import KWayMerge.Key.Float
import KWayMerge.Ranking

/-!
# Three ways to the first values

The block selection is measured against a full sort in the total order, and against a full sort
by value, in which the two zeros are equal; a sort by value is always ascending and turned round
for the other direction.
-/

namespace KWayMerge

abbrev Single := FloatBits .single

/-- The first `k` values by a full sort in the total order. -/
def firstByFullSort (values : List Single) (k : Nat) (direction : Direction) : List Single :=
  (Comparator.stableSort direction.comparator values).take k

/-- The first `k` values by a full sort by value. -/
def firstByValueSort (values : List Single) (k : Nat) (direction : Direction) : List Single :=
  let sorted := Comparator.stableSort FloatBits.valueCompare values
  match direction with
  | .ascending => sorted.take k
  | .descending => sorted.reverse.take k

/-- The block selection of the first `k` values. -/
def blockSelection (s : Settings) (values : List Single) (k : Nat) :
    Outcome Single (List Single) :=
  (s.sortAndSelect k).run values

/-- What a selection gave; nothing after a fault. -/
def selectedBy (o : Outcome Single (List Single)) : List Single :=
  match o.result with
  | .ok selected => selected
  | .error _ => []

/-- The first `k` values by block selection; none if the settings are refused. -/
def firstByBlocks (s : Settings) (values : List Single) (k : Nat) : List Single :=
  selectedBy (blockSelection s values k)

end KWayMerge
