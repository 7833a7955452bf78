import KWayMerge.Buffer.BaseBlocks
import KWayMerge.Buffer.Select
import KWayMerge.Count
import KWayMerge.Key.Placed
import KWayMerge.Settings.Basic

/-!
# Ranking raw values

The first `k` of a list of values, each with the place it had in the list: the values are tagged
with their places, base blocks are sorted, the first `k` are selected, and the tags are split
off again. The rows of a table are ranked one by one, and independently of each other.
-/

namespace KWayMerge

variable {α : Type}

/-- Selected values and, in parallel, their places in the input. -/
structure Winners (α : Type) where
  values : List α
  places : List Nat
deriving DecidableEq, Repr

/-- The result of a ranking and what was reported meanwhile. -/
structure Report (β : Type) where
  result : Except Fault β
  events : List Event

/-- The number of places that a tag can name. -/
def placeCount : Nat := maxHalfWord + 1

/-- Tags each value with its place, if there are tags for all. -/
def tagWithPlaces (values : List α) : Except Fault (List (Placed α)) :=
  if placeCount < values.length then
    .error (.tooManyPlaces values.length)
  else
    .ok (Placed.ofList values)

/-- Splits tagged values into values and places. -/
def Winners.ofPlaced (xs : List (Placed α)) : Winners α :=
  ⟨(Placed.unzip xs).1, (Placed.unzip xs).2⟩

variable [MergeKey α]

namespace Settings

/-- Sorts the base blocks of a buffer and selects its first `k` elements. -/
def sortAndSelect {β : Type} [MergeKey β] (s : Settings) (k : Nat) : BufferM β (List β) := do
  sortEachBlock s.direction.comparator s.baseBlock
  let buffer ← BufferM.contents
  s.merger.select s.baseBlock buffer.length k

/-- The first `k` values with their places. -/
def rank (s : Settings) (values : List α) (k : Nat) : Report (Winners α) :=
  match s.validate with
  | .error fault => ⟨.error fault, []⟩
  | .ok () =>
      match tagWithPlaces values with
      | .error fault => ⟨.error fault, []⟩
      | .ok tagged =>
          let done := (s.sortAndSelect k).run tagged
          ⟨done.result.map Winners.ofPlaced, done.events⟩

/--
The first `k` values of each row of `rowLen`. Rows are worked on in no particular order, so
only the beginning of the whole is reported.
-/
def rankRows (s : Settings) (values : List α) (rowLen k : Nat) : Report (List (Winners α)) :=
  if rowLen = 0 ∨ values.length % rowLen ≠ 0 then
    ⟨.error (.unevenRows values.length rowLen), []⟩
  else
    ⟨(chunks rowLen values).mapM fun row => (s.rank row k).result,
      [.rowSelection (values.length / rowLen) rowLen k]⟩

end Settings
end KWayMerge
