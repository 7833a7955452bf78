import KWayMerge.Buffer.Action
import KWayMerge.Buffer.Chunks
import KWayMerge.Buffer.Plan
import KWayMerge.Merge.Basic

/-!
# Selecting the first elements of a buffer of sorted blocks

The first `k` elements of a buffer, in sorted order, are brought to its front by a plan: rounds
of merges at the fan-in, each clamped to `k`, and then folds of the remaining blocks into the
front. The rest of the buffer is workspace and is left partly merged.
-/

namespace KWayMerge

variable {α : Type}

namespace RunMerger

/-- Merges what counts of each block of one group, over the front of the group. -/
def mergeGroup (m : RunMerger α) (r : PlanRound) (group : List α) : Except Fault (List α) :=
  match m.merge ((chunks r.blockLen group).map (List.take r.runLen)) r.capacity false with
  | .error fault => .error fault
  | .ok merged => .ok (overwrite merged.output group)

/-- Merges the complete groups at the front of the buffer. -/
def runRound (m : RunMerger α) (r : PlanRound) : BufferM α Unit := do
  BufferM.emit (.plannedRound r.index r.blockLen r.groups r.capacity)
  let buffer ← BufferM.contents
  let covered := r.groups * r.mergedLen
  let merged ← BufferM.ofExcept
    ((chunks r.mergedLen (buffer.take covered)).mapM (m.mergeGroup r))
  BufferM.replace (merged.flatten ++ buffer.drop covered)

/-- Merges a block of the tail into what has been gathered at the front. -/
def runFold (m : RunMerger α) (s : PlanFold) : BufferM α Unit := do
  let buffer ← BufferM.contents
  let front := buffer.take s.gathered
  let block := (buffer.drop s.offset).take s.runLen
  let merged ← BufferM.ofExcept (m.merge [front, block] s.capacity true)
  match merged.tally with
  | none => pure ()
  | some tally =>
      BufferM.emit
        (.fold s.offset (tally.slot 0) (tally.slot 1) (s.gathered + s.runLen - tally.total))
  BufferM.replace (overwrite merged.output buffer)

/-- Carries out the rounds of a plan and then its folds. -/
def carryOut (m : RunMerger α) (plan : Plan) : BufferM α Unit := do
  plan.rounds.forM m.runRound
  if plan.folds.isEmpty then
    pure ()
  else
    BufferM.emit (.foldingRemainder plan.tailBlocks)
  plan.folds.forM m.runFold

/--
Brings the first `k` of the first `totalLen` elements to the front, in sorted order, and gives
their number. These elements are to be sorted blocks of `blockLen`, the last possibly shorter.
-/
def selectInPlace (m : RunMerger α) (blockLen totalLen k : Nat) : BufferM α Nat := do
  let buffer ← BufferM.contents
  if buffer.length < totalLen then
    BufferM.refuse (.shortBuffer totalLen buffer.length)
  else
    let plan ← BufferM.ofExcept (Plan.make totalLen blockLen k m.fanIn)
    if plan.k < k then
      BufferM.emit (.clamped k plan.k)
    else
      pure ()
    if plan.k = 0 then
      pure 0
    else
      BufferM.onFront totalLen (m.carryOut plan)
      pure plan.outputLen

/-- The first `k` of the first `totalLen` elements, in sorted order. -/
def select (m : RunMerger α) (blockLen totalLen k : Nat) : BufferM α (List α) := do
  let count ← m.selectInPlace blockLen totalLen k
  let buffer ← BufferM.contents
  pure (buffer.take count)

/-- Sorts the first `totalLen` elements, which are sorted blocks of `blockLen`. -/
def sortFromBlocks (m : RunMerger α) (blockLen totalLen : Nat) : BufferM α Unit := do
  let _ ← m.selectInPlace blockLen totalLen totalLen
  pure ()

end RunMerger
end KWayMerge
