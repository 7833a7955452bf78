import KWayMerge.Merge.Basic

/-!
# Merges that verify their runs

A verified merge looks through all runs first and refuses a run that is out of order. The
refusal names the first such run and its first inversion, and comes before any other.
-/

namespace KWayMerge

universe u

variable {α : Type u}

namespace RunMerger

/-- Looks for an inversion in the runs, which are numbered from `i`. -/
def verifyFrom (m : RunMerger α) : Nat → List (List α) → Except Fault Unit
  | _, [] => .ok ()
  | i, run :: rest =>
      match m.cmp.firstInversion? run with
      | some index => .error (.disorderedRun i index)
      | none => m.verifyFrom (i + 1) rest

/-- Refuses runs of which one is out of order. -/
def verify (m : RunMerger α) (runs : List (List α)) : Except Fault Unit :=
  m.verifyFrom 0 runs

def verifiedMerge (m : RunMerger α) (runs : List (List α)) (capacity : Nat) (track : Bool) :
    Except Fault (Merged α) :=
  match m.verify runs with
  | .error fault => .error fault
  | .ok () => m.merge runs capacity track

def verifiedMergeUntilRunEnds (m : RunMerger α) (runs : List (List α)) (capacity : Nat) :
    Except Fault (Merged α) :=
  match m.verify runs with
  | .error fault => .error fault
  | .ok () => m.mergeUntilRunEnds runs capacity

def verifiedMergeOver (m : RunMerger α) (runs : List (List α)) (track : Bool) (dst : List α) :
    Except Fault Filled × List α :=
  match m.verify runs with
  | .error fault => (.error fault, dst)
  | .ok () => m.mergeOver runs track dst

end RunMerger
end KWayMerge
