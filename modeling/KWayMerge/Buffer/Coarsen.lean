import KWayMerge.Buffer.Action
import KWayMerge.Buffer.Chunks
import KWayMerge.Count
import KWayMerge.Merge.Basic

/-!
# Coarsening the blocks of a buffer

A buffer of sorted blocks is coarsened in rounds. A round merges each group of adjacent blocks,
as many as the fan-in, into one block. A short last group is merged too, and a lone last block is
left as it is. Rounds are repeated until the buffer is one block.

Block lengths are machine words: the length of a group does not grow beyond the largest of them.
-/

namespace KWayMerge

variable {α : Type}

namespace RunMerger

/-- The length of a group of blocks, and of the blocks after a round. -/
def groupLen (m : RunMerger α) (blockLen : Nat) : Nat :=
  min (blockLen * m.fanIn.count) maxWord

/-- Merges the blocks of one group; a single block stays as it is. -/
def mergeAdjacent (m : RunMerger α) (blockLen : Nat) (group : List α) :
    Except Fault (List α) :=
  let blocks := chunks blockLen group
  if blocks.length < 2 then
    .ok group
  else
    match m.merge blocks group.length false with
    | .error fault => .error fault
    | .ok merged => .ok (overwrite merged.output group)

/-- Merges each group of adjacent blocks and gives the new block length. -/
def coarsen (m : RunMerger α) (blockLen : Nat) : BufferM α Nat := do
  if blockLen = 0 then
    BufferM.refuse .emptyBlocks
  else
    let buffer ← BufferM.contents
    let len := m.groupLen blockLen
    if buffer.length ≤ blockLen then
      pure len
    else
      BufferM.emit (.coarsening blockLen ((buffer.length + len - 1) / len))
      let merged ← BufferM.ofExcept ((chunks len buffer).mapM (m.mergeAdjacent blockLen))
      BufferM.replace merged.flatten
      pure len

/--
Repeats rounds over `n` elements, from blocks of `blockLen`, until one block holds them all. A
round that would not lengthen the blocks would be the last.
-/
def coarsenUntil (m : RunMerger α) (n blockLen : Nat) : BufferM α Unit :=
  if _hshort : blockLen < n then do
    let next ← m.coarsen blockLen
    if _hgrows : blockLen < next then
      m.coarsenUntil n next
    else
      pure ()
  else
    pure ()
termination_by n - blockLen

/-- Sorts a buffer of sorted blocks of `blockLen` by rounds over the whole of it. -/
def sortByCoarsening (m : RunMerger α) (blockLen : Nat) : BufferM α Unit := do
  if blockLen = 0 then
    BufferM.refuse .emptyBlocks
  else
    let buffer ← BufferM.contents
    m.coarsenUntil buffer.length blockLen

end RunMerger
end KWayMerge
