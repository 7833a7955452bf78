import KWayMerge.Key.Basic

/-!
# Values tagged with their places

A placed value remembers the position it had in the input. It is ordered by the value alone:
the place rides along, and a stable merge keeps equal values in the order of their places.
-/

namespace KWayMerge

universe u

/-- A value and the position it came from. -/
structure Placed (α : Type u) where
  value : α
  place : Nat
deriving DecidableEq

namespace Placed

variable {α : Type u}

instance [MergeKey α] : MergeKey (Placed α) where
  order a b := MergeKey.order a.value b.value

/-- Tags each value of a list with its position. -/
def ofList (values : List α) : List (Placed α) :=
  values.mapIdx fun i v => ⟨v, i⟩

/-- The values of a list of placed values, and their places. -/
def unzip (xs : List (Placed α)) : List α × List Nat :=
  (xs.map value, xs.map place)

end Placed
end KWayMerge
