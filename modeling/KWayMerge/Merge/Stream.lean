import KWayMerge.Merge.Progress

/-!
# Merging piece by piece

A stream produces the complete merge of its runs in pieces of at most `chunk` elements. Each
piece is a merge of its own that starts where the tally of the one before it left off.
-/

namespace KWayMerge

universe u

/-- A merge under way. -/
structure MergeStream (α : Type u) where
  merger : RunMerger α
  runs : List (List α)
  progress : Progress
  chunk : Nat

variable {α : Type u}

/-- The pieces taken from a stream, each with the progress after it. -/
structure Collected (α : Type u) where
  pieces : List (List α × Progress)
  /-- Whether the stream was found to be at its end. -/
  ended : Bool
  final : MergeStream α

/-- Starts a stream over the runs, if a merge of them to this capacity is possible. -/
def RunMerger.stream (m : RunMerger α) (runs : List (List α)) (chunk : Nat) :
    Except Fault (MergeStream α) :=
  match m.accept runs.length chunk with
  | .error fault => .error fault
  | .ok () =>
      match Progress.ofRuns runs with
      | .error fault => .error fault
      | .ok progress => .ok ⟨m, runs, progress, chunk⟩

namespace MergeStream

/-- The next piece and the stream after it; none at the end. -/
def next? (s : MergeStream α) : Option (List α × MergeStream α) :=
  if s.progress.isFinished then
    none
  else
    match s.merger.merge (s.progress.remainingRuns s.runs) s.chunk true with
    | .error _ => none
    | .ok merged =>
        match merged.tally with
        | none => none
        | some tally =>
            match s.progress.advance tally with
            | .error _ => none
            | .ok progress => some (merged.output, { s with progress := progress })

/-- Asks for a piece at most `limit` times, and no more once the stream has ended. -/
def collect (s : MergeStream α) : Nat → Collected α
  | 0 => ⟨[], false, s⟩
  | limit + 1 =>
      match s.next? with
      | none => ⟨[], true, s⟩
      | some (piece, rest) =>
          let later := rest.collect limit
          ⟨(piece, rest.progress) :: later.pieces, later.ended, later.final⟩

/-- A number of requests that reaches the end: each piece holds an element, and one finds none. -/
def requestsToEnd (s : MergeStream α) : Nat :=
  sumCounts (s.runs.map List.length) + 1

end MergeStream
end KWayMerge
