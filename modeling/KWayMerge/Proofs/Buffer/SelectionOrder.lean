import KWayMerge.Proofs.Buffer.Coarsening
import KWayMerge.Proofs.Merge.StableMerge

/-!
# The order that a selection brings out

Under a total preorder gathering keeps the front of the head merge, so whatever groups the base
blocks of a buffer are gathered in, what comes out is the front of their head merge. The fan-in
decides on the groups only, and so do rounds and folds on the one hand and rounds of coarsening on
the other. If each base block is ordered, the head merge of the blocks is the stable sort of the
buffer.

**Results.**
* `winners_eq_take_headMerge`: selections and both sorts bring out the head merge of the blocks,
  whatever the blocks hold.
* `selection_of_ordered_blocks`: from ordered blocks a selection brings out the first elements of
  the stable sort.
-/

namespace KWayMerge

variable {α : Type}

section HeadMerge

variable (m : RunMerger α) [Std.TransCmp m.cmp] {blockLen totalLen : Nat} {buffer : List α}

/-- **A selection brings the front of the head merge of the base blocks to the front.** -/
theorem run_selectInPlace_headMerge
    (hblock : 0 < blockLen)
    (htotal : totalLen ≤ buffer.length)
    (k : Nat) :
    ∃ after events,
      after.length = totalLen ∧
      after.take (min k totalLen) =
        (headMerge m.cmp (chunks blockLen (buffer.take totalLen))).take (min k totalLen) ∧
      (m.selectInPlace blockLen totalLen k).run buffer =
        ⟨.ok (min k totalLen), after ++ buffer.drop totalLen, events⟩ := by
  have hlength : (buffer.take totalLen).length = totalLen := List.length_take_of_le htotal
  by_cases hk : min k totalLen = 0
  · refine ⟨buffer.take totalLen,
      (Plan.ofBlocks totalLen blockLen 0 m.fanIn).clampEvents k, hlength, ?_, ?_⟩
    · rw [hk, List.take_zero, List.take_zero]
    · rw [List.take_append_drop, hk]
      exact run_selectInPlace_of_eq_zero m hblock htotal hk
  · obtain ⟨front, blocks, hgathers, -, hrun⟩ :=
      run_selectInPlace m hblock htotal (Nat.pos_of_ne_zero hk) rfl
    have hall : Gathers m.cmp (min k totalLen) (chunks blockLen (buffer.take totalLen))
        [foldSegments m.cmp (min k totalLen) front blocks] :=
      hgathers.trans (gathers_foldSegments m.cmp (min k totalLen) front blocks)
    refine ⟨_, _, ?_, hall.take_of_singleton, hrun⟩
    have hkeep := hall.length_flatten
    rw [List.flatten_singleton, flatten_chunks hblock, hlength] at hkeep
    exact hkeep

theorem result_select
    (hblock : 0 < blockLen)
    (htotal : totalLen ≤ buffer.length)
    (k : Nat) :
    ((m.select blockLen totalLen k).run buffer).result =
      .ok ((headMerge m.cmp (chunks blockLen (buffer.take totalLen))).take (min k totalLen)) := by
  obtain ⟨after, events, hlength, hfront, hrun⟩ :=
    run_selectInPlace_headMerge m hblock htotal k
  rw [run_select m hrun (by omega), hfront]

theorem run_sortFromBlocks
    (hblock : 0 < blockLen)
    (htotal : totalLen ≤ buffer.length) :
    ∃ events, (m.sortFromBlocks blockLen totalLen).run buffer =
      ⟨.ok (), headMerge m.cmp (chunks blockLen (buffer.take totalLen)) ++ buffer.drop totalLen,
        events⟩ := by
  obtain ⟨after, events, hlength, hfront, hrun⟩ :=
    run_selectInPlace_headMerge m hblock htotal totalLen
  have hwhole : (headMerge m.cmp (chunks blockLen (buffer.take totalLen))).length = totalLen := by
    rw [length_headMerge, flatten_chunks hblock, List.length_take_of_le htotal]
  rw [Nat.min_self, List.take_of_length_le (by omega), List.take_of_length_le (by omega)] at hfront
  rw [hfront] at hrun
  refine ⟨events ++ [], ?_⟩
  rw [RunMerger.sortFromBlocks]
  exact BufferM.run_bind_of_run hrun (BufferM.run_pure _ _)

theorem headMerge_chunks_of_length_le {cmp : Comparator α} [Std.TransCmp cmp] {len : Nat}
    {xs : List α} (h : xs.length ≤ len) : headMerge cmp (chunks len xs) = xs := by
  by_cases hxs : xs = []
  · rw [hxs, chunks_nil, headMerge_of_flatten_eq_nil List.flatten_nil]
  · rw [chunks_of_length_le hxs h, headMerge_singleton]

theorem run_sortByCoarsening
    (hblock : 0 < blockLen)
    (hword : buffer.length ≤ maxWord) :
    ∃ events, (m.sortByCoarsening blockLen).run buffer =
      ⟨.ok (), headMerge m.cmp (chunks blockLen buffer), events⟩ := by
  obtain ⟨after, len, events, hgathers, hle, hrun⟩ := run_coarsenUntil m hblock hword
  have hwhole : (headMerge m.cmp (chunks blockLen buffer)).length = buffer.length := by
    rw [length_headMerge, flatten_chunks hblock]
  have hafter : headMerge m.cmp (chunks len after) = after := headMerge_chunks_of_length_le hle
  have hlength : after.length = buffer.length := by
    rw [← hafter, length_headMerge, hgathers.length_flatten, flatten_chunks hblock]
  have hsorted : after = headMerge m.cmp (chunks blockLen buffer) := by
    have hkeep := hgathers.take_headMerge
    rw [hafter, List.take_of_length_le (by omega), List.take_of_length_le (by omega)] at hkeep
    exact hkeep
  refine ⟨events, ?_⟩
  rw [RunMerger.sortByCoarsening, if_neg (by omega),
    BufferM.run_bind_of_silent (BufferM.run_contents _), hrun, hsorted]

end HeadMerge

/-! ### Results -/

/--
**A selection brings out the head merge of the base blocks, whatever they hold.** So its winners
do not depend on the fan-in, and the sort by a selection of everything and the sort by coarsening
leave one and the same buffer, also with different fan-ins. The latter is about buffers in memory,
which hold no more than `maxWord` elements.
-/
theorem winners_eq_take_headMerge
    (cmp : Comparator α) [Std.TransCmp cmp]
    {blockLen totalLen : Nat} {buffer : List α}
    (hblock : 1 ≤ blockLen)
    (htotal : totalLen ≤ buffer.length) :
    (chunks blockLen (buffer.take totalLen)).length = (totalLen + blockLen - 1) / blockLen ∧
    (∀ (f : FanIn) (k : Nat),
      (((RunMerger.mk cmp f).select blockLen totalLen k).run buffer).result =
        .ok ((headMerge cmp (chunks blockLen (buffer.take totalLen))).take (min k totalLen))) ∧
    (∀ (f g : FanIn) (k : Nat),
      (((RunMerger.mk cmp f).select blockLen totalLen k).run buffer).result =
        (((RunMerger.mk cmp g).select blockLen totalLen k).run buffer).result) ∧
    (totalLen = buffer.length → buffer.length ≤ maxWord → ∀ f g : FanIn,
      (((RunMerger.mk cmp f).sortFromBlocks blockLen totalLen).run buffer).result = .ok () ∧
      (((RunMerger.mk cmp g).sortByCoarsening blockLen).run buffer).result = .ok () ∧
      (((RunMerger.mk cmp f).sortFromBlocks blockLen totalLen).run buffer).buffer =
        (((RunMerger.mk cmp g).sortByCoarsening blockLen).run buffer).buffer) := by
  have hselect : ∀ (f : FanIn) (k : Nat),
      (((RunMerger.mk cmp f).select blockLen totalLen k).run buffer).result =
        .ok ((headMerge cmp (chunks blockLen (buffer.take totalLen))).take (min k totalLen)) := by
    intro f k
    exact result_select (RunMerger.mk cmp f) hblock htotal k
  refine ⟨?_, hselect, ?_, ?_⟩
  · rw [length_chunks hblock, List.length_take_of_le htotal]
  · intro f g k
    rw [hselect f k, hselect g k]
  · rintro rfl hword f g
    obtain ⟨events, hplanned⟩ :=
      run_sortFromBlocks (RunMerger.mk cmp f) hblock (Nat.le_refl buffer.length)
    obtain ⟨events', hcoarsened⟩ := run_sortByCoarsening (RunMerger.mk cmp g) hblock hword
    rw [hplanned, hcoarsened]
    refine ⟨rfl, rfl, ?_⟩
    dsimp only
    rw [List.take_length, List.drop_length, List.append_nil]

theorem winners_of_disordered_blocks :
    chunks 2 [25, 10, 12, 11, 20] = [[25, 10], [12, 11], [20]] ∧
    (((RunMerger.mk Comparator.byTens .three).select 2 5 3).run [25, 10, 12, 11, 20]).result =
      .ok [12, 11, 25] ∧
    (((RunMerger.mk Comparator.byTens .two).sortFromBlocks 2 5).run
        [25, 10, 12, 11, 20]).buffer =
      (((RunMerger.mk Comparator.byTens .four).sortByCoarsening 2).run
        [25, 10, 12, 11, 20]).buffer := by
  obtain ⟨-, hselect, -, hsorts⟩ :=
    winners_eq_take_headMerge Comparator.byTens (show 1 ≤ 2 by decide)
      (show 5 ≤ [25, 10, 12, 11, 20].length by decide)
  have hmerge : headMerge Comparator.byTens (chunks 2 ([25, 10, 12, 11, 20].take 5)) =
      [12, 11, 25, 10, 20] := by
    decide +kernel
  refine ⟨by decide +kernel, ?_, ?_⟩
  · rw [hselect .three 3, hmerge]
    rfl
  · exact (hsorts rfl (by decide) .two .four).2.2

/--
**From ordered blocks a selection brings out the first elements of the stable sort.** A selection
of all elements leaves the stable sort, and what stands behind them is not touched.
-/
theorem selection_of_ordered_blocks
    (m : RunMerger α) [Std.TransCmp m.cmp]
    {blockLen totalLen : Nat} {buffer : List α}
    (hblock : 1 ≤ blockLen)
    (htotal : totalLen ≤ buffer.length)
    (hordered : ∀ block ∈ chunks blockLen (buffer.take totalLen), m.cmp.Ordered block)
    (k : Nat) :
    ((m.selectInPlace blockLen totalLen k).run buffer).result = .ok (min k totalLen) ∧
    ((m.selectInPlace blockLen totalLen k).run buffer).buffer.take (min k totalLen) =
      (m.cmp.stableSort (buffer.take totalLen)).take (min k totalLen) ∧
    ((m.sortFromBlocks blockLen totalLen).run buffer).result = .ok () ∧
    ((m.sortFromBlocks blockLen totalLen).run buffer).buffer =
      m.cmp.stableSort (buffer.take totalLen) ++ buffer.drop totalLen := by
  have hsort : headMerge m.cmp (chunks blockLen (buffer.take totalLen)) =
      m.cmp.stableSort (buffer.take totalLen) := by
    rw [headMerge_eq_stableSort hordered, flatten_chunks hblock]
  obtain ⟨after, events, hlength, hfront, hrun⟩ :=
    run_selectInPlace_headMerge m hblock htotal k
  obtain ⟨events', hrun'⟩ := run_sortFromBlocks m hblock htotal
  rw [hrun, hrun', hsort]
  refine ⟨rfl, ?_, rfl, rfl⟩
  rw [← hsort, ← hfront]
  exact List.take_append_of_le_length (by omega)

theorem selection_of_three_ordered_blocks :
    ((RunMerger.mk Comparator.byTens .two).selectInPlace 2 5 4 |>.run
        [10, 25, 11, 12, 20, 3]).result = .ok 4 ∧
    ((RunMerger.mk Comparator.byTens .two).selectInPlace 2 5 4 |>.run
        [10, 25, 11, 12, 20, 3]).buffer.take 4 = [10, 11, 12, 25] ∧
    ((RunMerger.mk Comparator.byTens .two).sortFromBlocks 2 5 |>.run
        [10, 25, 11, 12, 20, 3]).buffer = [10, 11, 12, 25, 20, 3] := by
  have hordered : ∀ block ∈ chunks 2 ([10, 25, 11, 12, 20, 3].take 5),
      Comparator.byTens.Ordered block := by
    decide +kernel
  have hsort : Comparator.byTens.stableSort ([10, 25, 11, 12, 20, 3].take 5) =
      [10, 11, 12, 25, 20] := by
    cbv
  obtain ⟨hresult, hfront, -, hbuffer⟩ :=
    selection_of_ordered_blocks (RunMerger.mk Comparator.byTens .two) (show 1 ≤ 2 by decide)
      (show 5 ≤ [10, 25, 11, 12, 20, 3].length by decide) hordered 4
  refine ⟨hresult, ?_, ?_⟩
  · exact hfront.trans (congrArg (List.take 4) hsort)
  · exact hbuffer.trans (congrArg (fun front => front ++ [3]) hsort)

end KWayMerge
