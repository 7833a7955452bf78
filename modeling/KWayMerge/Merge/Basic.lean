import KWayMerge.Merge.Tally

/-!
# Merging sorted runs up to a capacity

A merger combines between two runs and its fan-in into one, and stops at a capacity. The runs
ought to be sorted under its comparator; that is not checked here, and a merge of unsorted runs
comes out in the wrong order.

Merging into a destination writes the front of it and keeps the rest.
-/

namespace KWayMerge

universe u

/-- A comparator with the largest number of runs to merge at once. -/
structure RunMerger (α : Type u) where
  cmp : Comparator α
  fanIn : FanIn

/-- What a merge puts out, and what it took from each run if it was asked to keep a tally. -/
structure Merged (α : Type u) where
  output : List α
  tally : Option Tally

/-- How many elements a merge wrote into its destination, and its tally if asked for. -/
structure Filled where
  produced : Nat
  tally : Option Tally
deriving DecidableEq, Repr

variable {α : Type u}

/-- `dst` with its front replaced by `xs`, as far as it goes. -/
def overwrite (xs dst : List α) : List α :=
  xs.take dst.length ++ dst.drop xs.length

namespace RunMerger

/-- Whether a merge of so many runs to this capacity is possible. -/
def accept (m : RunMerger α) (runs capacity : Nat) : Except Fault Unit :=
  if runs < 2 ∨ m.fanIn.count < runs then
    .error (.runCount runs m.fanIn.count)
  else if capacity = 0 then
    .error .noCapacity
  else
    .ok ()

/-- The tally of the picks from `runs`, if it is to be kept. -/
def tallyIf (track : Bool) (runs : List (List α)) (taken : List (Pick α)) : Option Tally :=
  if track then some (Tally.ofPicks runs.length taken) else none

/-- The first `capacity` elements of the merge of `runs`. -/
def merge (m : RunMerger α) (runs : List (List α)) (capacity : Nat) (track : Bool) :
    Except Fault (Merged α) :=
  match m.accept runs.length capacity with
  | .error fault => .error fault
  | .ok () =>
      let taken := picks m.cmp .atCapacity capacity runs
      .ok ⟨taken.map Pick.value, tallyIf track runs taken⟩

/--
As `merge` with a tally, but suspended as soon as a run that held elements is used up. Runs that
are empty from the start suspend nothing.
-/
def mergeUntilRunEnds (m : RunMerger α) (runs : List (List α)) (capacity : Nat) :
    Except Fault (Merged α) :=
  match m.accept runs.length capacity with
  | .error fault => .error fault
  | .ok () =>
      let taken := picks m.cmp .whenRunEnds capacity runs
      .ok ⟨taken.map Pick.value, some (Tally.ofPicks runs.length taken)⟩

/--
Merges into a destination whose length is the capacity: the result, and the destination after
the call.
-/
def mergeOver (m : RunMerger α) (runs : List (List α)) (track : Bool) (dst : List α) :
    Except Fault Filled × List α :=
  match m.accept runs.length dst.length with
  | .error fault => (.error fault, dst)
  | .ok () =>
      let taken := picks m.cmp .atCapacity dst.length runs
      (.ok ⟨taken.length, tallyIf track runs taken⟩, overwrite (taken.map Pick.value) dst)

end RunMerger
end KWayMerge
