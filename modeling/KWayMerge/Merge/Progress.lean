import KWayMerge.Merge.Basic

/-!
# Progress through a set of runs

A merge keeps nothing between calls. Progress is what its caller keeps: for each run the length
and how much of it has been consumed. It is advanced by the tallies of successive merges, and
gives the tails with which the next one starts. A tally that takes more than remains of a run is
refused as a whole. No offset is beyond the length of its run, but the offsets in several long runs
may together be more than a word.

**Results.** `consumed?_eq`: what has been consumed of all runs is the word for the sum of offsets.
-/

namespace KWayMerge

universe u

/-- The length of a run and how much of it has been consumed. -/
structure RunPosition where
  length : Nat
  offset : Nat
deriving DecidableEq, Repr

namespace RunPosition

/-- A position in a run that does not exist. -/
def absent : RunPosition := ⟨0, 0⟩

def remaining (p : RunPosition) : Nat :=
  p.length - p.offset

def isExhausted (p : RunPosition) : Bool :=
  p.remaining == 0

/-- The offset in a run whose elements are `stride` units each. -/
def elementOffset? (o : Overflow) (p : RunPosition) (stride : Nat) : Option Nat :=
  o.word? (p.offset * stride)

end RunPosition

/-- A position in each of at most `slotCount` runs. -/
structure Progress where
  positions : List RunPosition
deriving DecidableEq, Repr

namespace Progress

variable {α : Type u}

/-- The start of runs of these lengths. -/
def ofLengths (lengths : List Nat) : Except Fault Progress :=
  if slotCount < lengths.length then
    .error (.runCount lengths.length slotCount)
  else
    .ok ⟨lengths.map fun length => ⟨length, 0⟩⟩

def ofRuns (runs : List (List α)) : Except Fault Progress :=
  ofLengths (runs.map List.length)

/-- The position in slot `i`; a slot without a run is at the end of nothing. -/
def position (p : Progress) (i : Nat) : RunPosition :=
  p.positions.getD i .absent

/-- The position in slot `i`, if there is such a slot. -/
def slot? (p : Progress) (i : Nat) : Option RunPosition :=
  if i < slotCount then some (p.position i) else none

/-- How much of each run has been consumed. -/
def offsets (p : Progress) : List Nat :=
  p.positions.map RunPosition.offset

/-- How much has been consumed of all runs together, as a word. -/
def consumed? (o : Overflow) (p : Progress) : Option Nat :=
  o.sum? p.offsets

theorem consumed?_eq (o : Overflow) (p : Progress) :
    p.consumed? o = o.word? (sumCounts p.offsets) :=
  o.sum?_eq p.offsets

theorem consumed?_of_le {p : Progress} (h : sumCounts p.offsets ≤ maxWord) (o : Overflow) :
    p.consumed? o = some (sumCounts p.offsets) := by
  rw [consumed?_eq, o.word?_of_le h]

/-- Whether nothing remains of any run. -/
def isFinished (p : Progress) : Bool :=
  p.positions.all RunPosition.isExhausted

/-- The first slot of which a tally takes more than remains. -/
def firstOverrun? (p : Progress) (t : Tally) : Option Nat :=
  (List.range slotCount).find? fun i => decide ((p.position i).remaining < t.slot i)

/-- Moves each position on by what the tally took from its run. -/
def advance (p : Progress) (t : Tally) : Except Fault Progress :=
  match p.firstOverrun? t with
  | some i => .error (.overrun i (t.slot i) (p.position i).remaining)
  | none => .ok ⟨p.positions.mapIdx fun i q => ⟨q.length, q.offset + t.slot i⟩⟩

/-- The tail of each run that has not been consumed. -/
def remainingRuns (p : Progress) (runs : List (List α)) : List (List α) :=
  List.zipWith (fun run offset => run.drop offset) runs p.offsets

end Progress
end KWayMerge
