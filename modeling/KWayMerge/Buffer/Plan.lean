import KWayMerge.Count
import KWayMerge.FanIn

/-!
# Plans of a block selection

A buffer of sorted base blocks is merged in rounds. A round merges each complete group of
adjacent blocks, as many as the fan-in, into one block; what forms no group stays in place. When
no complete group is left, the buffer holds blocks of decreasing lengths from front to back, and
these are folded into the first, two at a time.

A selection of the first `k` elements never needs more than `k` elements of a block, so a block
of length `L` counts as `min L k` elements at its front, and each merge stops at that capacity.

**Results.** `levels_cons` unfolds the sequence of block lengths, and `sumCounts_tailOf` says
that the blocks left for folding cover the whole length.
-/

namespace KWayMerge

/-- One pass of merges over the front of the buffer. -/
structure PlanRound where
  index : Nat
  /-- The length of the blocks that go in. -/
  blockLen : Nat
  /-- The length of the blocks that come out. -/
  mergedLen : Nat
  /-- The number of complete groups, the first at the front of the buffer. -/
  groups : Nat
  /-- How much is read from each block. -/
  runLen : Nat
  /-- How much each merge puts out. -/
  capacity : Nat
deriving DecidableEq, Repr

/-- A merge of the front of the buffer with the next block of the tail. -/
structure PlanFold where
  /-- Where the block starts. -/
  offset : Nat
  blockLen : Nat
  /-- How much is read from the block. -/
  runLen : Nat
  /-- How much has been gathered at the front before. -/
  gathered : Nat
  capacity : Nat
deriving DecidableEq, Repr

/-- The rounds and folds that bring the first `k` of `totalLen` elements to the front. -/
structure Plan where
  totalLen : Nat
  k : Nat
  rounds : List PlanRound
  tailBlocks : List Nat
  folds : List PlanFold
deriving DecidableEq, Repr

namespace Plan

/--
The block lengths from `len` upward, each the fan-in times the one before, as long as one group
of them fits into the whole.
-/
def levels (totalLen : Nat) (f : FanIn) (len : Nat) : List Nat :=
  if _h : 0 < len ∧ len * f.count ≤ totalLen then
    len :: levels totalLen f (len * f.count)
  else
    [len]
termination_by totalLen - len
decreasing_by
  have h2 := f.two_le_count
  have : len * 2 ≤ len * f.count := Nat.mul_le_mul_left len h2
  omega

theorem levels_cons (totalLen : Nat) (f : FanIn) (len : Nat) :
    levels totalLen f len =
      if 0 < len ∧ len * f.count ≤ totalLen then
        len :: levels totalLen f (len * f.count)
      else
        [len] := by
  conv => lhs; unfold levels
  split <;> simp_all

/-- The round number `index`, over blocks of length `len`. -/
def roundOf (totalLen k : Nat) (f : FanIn) (index len : Nat) : PlanRound where
  index := index
  blockLen := len
  mergedLen := len * f.count
  groups := totalLen / (len * f.count)
  runLen := min len k
  capacity := min (len * f.count) k

/-- One round for each block length but the last. -/
def roundsOf (totalLen k : Nat) (f : FanIn) (lens : List Nat) : List PlanRound :=
  lens.dropLast.mapIdx fun index len => roundOf totalLen k f index len

/--
The blocks that cover `rest`, of the given lengths from the longest to the shortest; a last
block takes what is left over.
-/
def tailOf : (lens : List Nat) → (rest : Nat) → List Nat
  | [], rest => if rest = 0 then [] else [rest]
  | len :: lens, rest => List.replicate (rest / len) len ++ tailOf lens (rest % len)

theorem sumCounts_tailOf :
    ∀ (lens : List Nat) (rest : Nat), sumCounts (tailOf lens rest) = rest
  | [], rest => by by_cases h : rest = 0 <;> simp [tailOf, h]
  | len :: lens, rest => by
      rw [tailOf, sumCounts_append, sumCounts_replicate, sumCounts_tailOf lens,
        Nat.div_add_mod']

/-- The folds of the blocks that start at `offset`, with so much gathered before them. -/
def foldsFrom (k : Nat) : (offset gathered : Nat) → List Nat → List PlanFold
  | _, _, [] => []
  | offset, gathered, len :: lens =>
      ⟨offset, len, min len k, gathered, min (gathered + min len k) k⟩ ::
        foldsFrom k (offset + len) (min (gathered + min len k) k) lens

/-- One fold for each block but the first. -/
def foldsOf (k : Nat) : List Nat → List PlanFold
  | [] => []
  | first :: others => foldsFrom k first (min first k) others

/--
Plans the selection of the first `k` of `totalLen` elements in blocks of `blockLen`. A larger
`k` than there are elements selects them all.
-/
def make (totalLen blockLen k : Nat) (f : FanIn) : Except Fault Plan :=
  if blockLen = 0 then
    .error .emptyBlocks
  else
    let selected := min k totalLen
    let lens := levels totalLen f blockLen
    let tail := tailOf lens.reverse totalLen
    .ok {
      totalLen := totalLen
      k := selected
      rounds := roundsOf totalLen selected f lens
      tailBlocks := tail
      folds := foldsOf selected tail
    }

/-- The number of elements that a plan brings to the front. -/
def outputLen (p : Plan) : Nat :=
  p.k

end Plan
end KWayMerge
