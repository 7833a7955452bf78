import KWayMerge.Count
import KWayMerge.FanIn
import KWayMerge.Merge.Pick

/-!
# Tallies

A tally says how many elements a merge took from each of its runs. There are `slotCount` slots
whatever the number of runs; a slot without a run counts nothing.
-/

namespace KWayMerge

universe u

/-- Elements taken from each run of a merge. -/
structure Tally where
  counts : List Nat
deriving DecidableEq, Repr

namespace Tally

/-- The tally of a merge without runs. -/
def empty : Tally := ⟨[]⟩

/-- The number of runs of the merge. -/
def runs (t : Tally) : Nat :=
  t.counts.length

/-- What was taken from run `i`; nothing if there is no such run. -/
def slot (t : Tally) (i : Nat) : Nat :=
  t.counts.getD i 0

def slots (t : Tally) : List Nat :=
  (List.range slotCount).map t.slot

def total (t : Tally) : Nat :=
  sumCounts t.counts

/-- The tally of a sequence of picks from so many runs. -/
def ofPicks {α : Type u} (runs : Nat) (taken : List (Pick α)) : Tally :=
  ⟨(List.range runs).map fun i => taken.countP fun pick => pick.run == i⟩

@[simp] theorem runs_ofPicks {α : Type u} (runs : Nat) (taken : List (Pick α)) :
    (ofPicks runs taken).runs = runs := by
  simp [ofPicks, Tally.runs]

/-- A slot of a tally counts the picks from its run. -/
theorem slot_ofPicks {α : Type u} (runs : Nat) (taken : List (Pick α)) (i : Nat) :
    (ofPicks runs taken).slot i =
      if i < runs then taken.countP (fun pick => pick.run == i) else 0 := by
  by_cases h : i < runs
  · simp [ofPicks, slot, h]
  · simp [ofPicks, slot, h]

end Tally
end KWayMerge
