import KWayMerge.Proofs.Buffer.Rounds

/-!
# What the folds of a selection do

After the last round the remaining segments are folded into the first, one after another. A fold
gathers the first two segments, and what it writes never reaches a segment that is still to come.
In the end one segment is left.

**Results.**
* `run_runFold`: a fold gathers the first two segments.
* `run_folds`: all folds together, with what they report.
-/

namespace KWayMerge

variable {α : Type}

/-- The report of a fold of the segment `block` into the segment `front`. -/
def foldEvent (cmp : Comparator α) (k : Nat) (front block : List α) : Event :=
  let tally := Tally.ofPicks 2 (picks cmp .atCapacity k [front, block])
  .fold front.length (tally.slot 0) (tally.slot 1)
    (min front.length k + min block.length k - tally.total)

def foldEvents (cmp : Comparator α) (k : Nat) : List α → List (List α) → List Event
  | _, [] => []
  | front, block :: blocks =>
      foldEvent cmp k front block :: foldEvents cmp k (gather cmp k [front, block]) blocks

/-- The segment that is left when segments have been folded into the first. -/
def foldSegments (cmp : Comparator α) (k : Nat) : List α → List (List α) → List α
  | front, [] => front
  | front, block :: blocks => foldSegments cmp k (gather cmp k [front, block]) blocks

theorem gathers_foldSegments (cmp : Comparator α) (k : Nat) (front : List α)
    (blocks : List (List α)) :
    Gathers cmp k (front :: blocks) [foldSegments cmp k front blocks] := by
  induction blocks generalizing front with
  | nil => exact Relation.ReflTransGen.refl
  | cons block blocks ih =>
      have hstep : GatherStep cmp k ([] ++ [front, block] ++ blocks)
          ([] ++ gather cmp k [front, block] :: blocks) := .mk _ _ _
      exact Relation.ReflTransGen.head hstep (ih (gather cmp k [front, block]))

/-- The fold of the segment `block` into the segment `front`. -/
def Plan.foldOf (k : Nat) (front block : List α) : PlanFold where
  offset := front.length
  blockLen := block.length
  runLen := min block.length k
  gathered := min front.length k
  capacity := min (min front.length k + min block.length k) k

/-- The other folds of a plan go into what the first gathers. -/
theorem Plan.foldsFrom_gather (cmp : Comparator α) (k : Nat) (front block : List α)
    (lens : List Nat) :
    Plan.foldsFrom k front.length (min front.length k) (block.length :: lens) =
      Plan.foldOf k front block ::
        Plan.foldsFrom k (gather cmp k [front, block]).length
          (min (gather cmp k [front, block]).length k) lens := by
  have hlength : (gather cmp k [front, block]).length = front.length + block.length := by
    simp
  have hgathered : min (gather cmp k [front, block]).length k =
      min (min front.length k + min block.length k) k := by
    rw [hlength]
    omega
  rw [hgathered, hlength, Plan.foldsFrom]
  rfl

theorem length_gather_pair_pos {cmp : Comparator α} {k : Nat} {front : List α}
    (hfront : 0 < front.length) (block : List α) :
    0 < (gather cmp k [front, block]).length := by
  rw [length_gather, List.flatten_cons, List.length_append]
  omega

section Fold

variable (m : RunMerger α) {k : Nat}

theorem take_min_length (xs : List α) : xs.take (min xs.length k) = xs.take k := by
  rw [List.take_eq_take_iff]
  omega

/-- **A fold gathers the first two segments.** -/
theorem run_runFold (hk : 0 < k) {front : List α} (hfront : 0 < front.length)
    (block : List α) (blocks : List (List α)) :
    (m.runFold (Plan.foldOf k front block)).run (front :: block :: blocks).flatten =
      ⟨.ok (), (gather m.cmp k [front, block] :: blocks).flatten,
        [foldEvent m.cmp k front block]⟩ := by
  have hbuffer : (front :: block :: blocks).flatten = front ++ (block ++ blocks.flatten) := rfl
  have htakeFront : (front ++ (block ++ blocks.flatten)).take (min front.length k) =
      front.take k := by
    rw [List.take_append_of_le_length (Nat.min_le_left _ _), take_min_length]
  have htakeBlock : ((front ++ (block ++ blocks.flatten)).drop front.length).take
      (min block.length k) = block.take k := by
    rw [List.drop_left, List.take_append_of_le_length (Nat.min_le_left _ _), take_min_length]
  have hagree : [front.take k, block.take k].map (List.take k) =
      [front, block].map (List.take k) := by
    simp [List.take_take]
  have hpicks : picks m.cmp .atCapacity (min (min front.length k + min block.length k) k)
      [front.take k, block.take k] = picks m.cmp .atCapacity k [front, block] := by
    refine picks_eq_of_agree hagree (Nat.min_le_right _ _) ?_
    simp only [List.flatten_cons, List.flatten_nil, List.append_nil, List.length_append]
    omega
  have hmerge : m.merge [front.take k, block.take k]
      (min (min front.length k + min block.length k) k) true =
        .ok ⟨(picks m.cmp .atCapacity k [front, block]).map Pick.value,
          some (Tally.ofPicks 2 (picks m.cmp .atCapacity k [front, block]))⟩ := by
    have htwo : [front.take k, block.take k].length ≤ m.fanIn.count := m.fanIn.two_le_count
    rw [merge_eq_ok (by simp) htwo (by omega), hpicks]
    rfl
  have hwrite : overwrite ((picks m.cmp .atCapacity k [front, block]).map Pick.value)
      (front ++ (block ++ blocks.flatten)) =
        (gather m.cmp k [front, block] :: blocks).flatten := by
    have hle : ((picks m.cmp .atCapacity k [front, block]).map Pick.value).length ≤
        [front, block].flatten.length := length_map_value_picks_le _
    rw [List.flatten_cons, gather, ← overwrite_append hle]
    simp
  rw [RunMerger.runFold, Plan.foldOf]
  refine BufferM.run_bind_of_run (BufferM.run_contents _) ?_
  dsimp only
  rw [hbuffer, htakeFront, htakeBlock, hmerge]
  refine BufferM.run_bind_of_run (BufferM.run_ofExcept _ _) ?_
  refine BufferM.run_bind_of_run (BufferM.run_emit _ _) ?_
  rw [BufferM.run_replace, hwrite]

/-- **All folds, the first into the segment `front`.** -/
theorem run_folds (hk : 0 < k) {front : List α} (hfront : 0 < front.length)
    (blocks : List (List α)) :
    ((Plan.foldsFrom k front.length (min front.length k) (blocks.map List.length)).forM
        m.runFold).run (front :: blocks).flatten =
      ⟨.ok (), foldSegments m.cmp k front blocks, foldEvents m.cmp k front blocks⟩ := by
  -- the front grows with each fold, and all that counts of it is its first `k` elements
  induction blocks generalizing front with
  | nil =>
      rw [List.flatten_cons, List.flatten_nil, List.append_nil]
      rfl
  | cons block blocks ih =>
      have hpos : 0 < (gather m.cmp k [front, block]).length :=
        length_gather_pair_pos hfront block
      rw [List.map_cons, Plan.foldsFrom_gather m.cmp]
      exact BufferM.run_bind_of_run (run_runFold m hk hfront block blocks) (ih hpos)

end Fold

end KWayMerge
