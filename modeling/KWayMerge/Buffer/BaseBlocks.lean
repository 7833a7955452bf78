import KWayMerge.Buffer.Action
import KWayMerge.Buffer.Chunks
import KWayMerge.Comparator

/-!
# Sorting the base blocks

A selection starts from a buffer of small sorted blocks. Each block is sorted on its own and
stably, so that equal elements keep their places relative to each other.
-/

namespace KWayMerge

variable {α : Type}

/-- Sorts each block of `blockLen` elements. -/
def sortEachBlock (cmp : Comparator α) (blockLen : Nat) : BufferM α Unit := do
  if blockLen = 0 then
    BufferM.refuse .emptyBlocks
  else
    let buffer ← BufferM.contents
    BufferM.replace ((chunks blockLen buffer).map cmp.stableSort).flatten

end KWayMerge
