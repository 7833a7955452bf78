import KWayMerge.Proofs.Buffer.SelectionOrder

/-!
# Rounds of coarsening in a row

Rounds of coarsening may be made one by one, each with a fan-in of its own, and something else may
be done with the buffer between them. What makes this possible is that the block length which a
round gives describes the buffer that it leaves: under a total preorder each chunk of that length
is the head merge of the base blocks at its places. This says nothing of the fan-ins, and it holds
as well of a round that finds a single block, and of a block length that has been cut down to the
largest word, since there is one chunk only then.

**Results.**
* `headMerge_map_headMerge_chunks`: merging in two levels is merging at once.
* `run_coarsen_headMerge`: one round turns each chunk into the head merge of the blocks in it.
* `Coarsened.next`: what a round keeps.
* `run_coarsenEach`: what rounds in a row keep.
* `coarsenEach_describes_buffer`: after any rounds, what comes of a selection and of a sort is what
  would have come of it before them.
-/

namespace KWayMerge

variable {α : Type}

/-- Rounds with these fan-ins, each from the block length that the one before it has given. -/
def coarsenEach (cmp : Comparator α) : List FanIn → Nat → BufferM α Nat
  | [], len => pure len
  | f :: fanIns, len => do
      let next ← (RunMerger.mk cmp f).coarsen len
      coarsenEach cmp fanIns next

/-- The block length that rounds with these fan-ins give. -/
def lenAfter (fanIns : List FanIn) (blockLen : Nat) : Nat :=
  fanIns.foldl (fun len f => min (len * f.count) maxWord) blockLen

/-! ### One round -/

/-- **Merging the chunks apart, and then what came of them, is merging the blocks at once.** -/
theorem headMerge_map_headMerge_chunks {cmp : Comparator α} [Std.TransCmp cmp]
    {blockLen len : Nat} (hblock : 0 < blockLen) (hlen : 0 < len) {xs : List α}
    (haligned : blockLen ∣ len ∨ xs.length ≤ len) :
    headMerge cmp ((chunks len xs).map fun group => headMerge cmp (chunks blockLen group)) =
      headMerge cmp (chunks blockLen xs) := by
  have hparts : headMerge cmp (((chunks len xs).map (chunks blockLen)).map (headMerge cmp)) =
      headMerge cmp ((chunks len xs).map (chunks blockLen)).flatten :=
    headMerge_append_map_headMerge [] _
  rwa [List.map_map, flatten_map_chunks hblock hlen haligned] at hparts

section Round

variable (m : RunMerger α) [Std.TransCmp m.cmp] {blockLen : Nat}

/-- Chunks of blocks that hold them whole are left as they are. -/
theorem map_headMerge_chunks_of_length_le {cmp : Comparator α} [Std.TransCmp cmp]
    {groups : List (List α)} (h : ∀ group ∈ groups, group.length ≤ blockLen) :
    groups.map (fun group => headMerge cmp (chunks blockLen group)) = groups := by
  conv => rhs; rw [← List.map_id groups]
  exact List.map_congr_left fun group hgroup => headMerge_chunks_of_length_le (h group hgroup)

/-- **A round turns each chunk of the new length into the head merge of the blocks in it.** -/
theorem run_coarsen_headMerge (hblock : 0 < blockLen) (buffer : List α) :
    ∃ after events,
      chunks (m.groupLen blockLen) after = (chunks (m.groupLen blockLen) buffer).map
        (fun group => headMerge m.cmp (chunks blockLen group)) ∧
      (m.coarsen blockLen).run buffer = ⟨.ok (m.groupLen blockLen), after, events⟩ := by
  have hlen : 0 < m.groupLen blockLen := groupLen_pos m hblock
  by_cases hlong : blockLen < buffer.length
  · refine ⟨_, _, ?_, run_coarsen m hblock hlong (Nat.min_le_right _ _)⟩
    rw [chunks_flatten_mergedChunks m hblock, mergedChunks]
    refine List.map_congr_left fun group hgroup => gather_eq_headMerge ?_
    rw [flatten_chunks hblock]
    exact length_le_of_mem_chunks hlen hgroup
  · refine ⟨buffer, [], ?_, run_coarsen_of_length_le m hblock (not_lt.1 hlong)⟩
    rw [map_headMerge_chunks_of_length_le]
    intro group hgroup
    exact (length_le_of_mem_chunks hlen hgroup).trans (not_lt.1 hlong)

end Round

/-! ### What rounds keep -/

/--
After some rounds from blocks of `blockLen`, the chunks of length `len` are the head merges of the
blocks that stood at their places, and they cut no block in two.
-/
structure Coarsened (cmp : Comparator α) (blockLen : Nat) (buffer : List α) (len : Nat)
    (after : List α) : Prop where
  pos : 0 < len
  aligned : blockLen ∣ len ∨ buffer.length ≤ len
  chunks_eq : chunks len after =
    (chunks len buffer).map fun group => headMerge cmp (chunks blockLen group)

namespace Coarsened

variable {cmp : Comparator α} [Std.TransCmp cmp] {blockLen len : Nat} {buffer after : List α}

theorem refl (hblock : 0 < blockLen) (buffer : List α) :
    Coarsened cmp blockLen buffer blockLen buffer := by
  refine ⟨hblock, Or.inl (Nat.dvd_refl _), ?_⟩
  rw [map_headMerge_chunks_of_length_le]
  intro group hgroup
  exact (length_of_mem_chunks hblock hgroup).2

theorem length_eq (hblock : 0 < blockLen) (h : Coarsened cmp blockLen buffer len after) :
    after.length = buffer.length := by
  have hlengths : (chunks len after).map List.length = (chunks len buffer).map List.length := by
    rw [h.chunks_eq, List.map_map]
    refine List.map_congr_left fun group _ => ?_
    rw [Function.comp_apply, length_headMerge, flatten_chunks hblock]
  rw [← flatten_chunks h.pos after, ← flatten_chunks h.pos buffer, List.length_flatten, hlengths,
    ← List.length_flatten]

/-- Grouping the chunks and merging each group merges the base blocks in it. -/
theorem map_headMerge_chunks_mul (hblock : 0 < blockLen)
    (h : Coarsened cmp blockLen buffer len after) (hdvd : blockLen ∣ len) {n : Nat} (hn : 0 < n) :
    (chunks (len * n) after).map (fun group => headMerge cmp (chunks len group)) =
      (chunks (len * n) buffer).map fun group => headMerge cmp (chunks blockLen group) := by
  have hregroup : ∀ group ∈ chunks n (chunks len buffer),
      headMerge cmp (group.map fun part => headMerge cmp (chunks blockLen part)) =
        headMerge cmp (chunks blockLen group.flatten) := by
    intro group hgroup
    rw [← headMerge_map_headMerge_chunks hblock h.pos (Or.inl hdvd),
      chunks_flatten_of_mem_chunks h.pos hn hgroup]
  calc (chunks (len * n) after).map (fun group => headMerge cmp (chunks len group))
      = (chunks n (chunks len after)).map (headMerge cmp) := by
        rw [← map_flatten_chunks_chunks h.pos hn, List.map_map]
        refine List.map_congr_left fun group hgroup => ?_
        rw [Function.comp_apply, chunks_flatten_of_mem_chunks h.pos hn hgroup]
    _ = (chunks n (chunks len buffer)).map fun group =>
          headMerge cmp (group.map fun part => headMerge cmp (chunks blockLen part)) := by
        rw [h.chunks_eq, chunks_map hn, List.map_map]
        rfl
    _ = (chunks n (chunks len buffer)).map fun group =>
          headMerge cmp (chunks blockLen group.flatten) := List.map_congr_left hregroup
    _ = (chunks (len * n) buffer).map fun group => headMerge cmp (chunks blockLen group) := by
        rw [← map_flatten_chunks_chunks h.pos hn, List.map_map]
        rfl

/-- **A round from the length that describes the buffer gives a length that describes it.** -/
theorem next (hblock : 0 < blockLen) (hword : buffer.length ≤ maxWord) {middle : List α}
    (h : Coarsened cmp blockLen buffer len middle) (f : FanIn)
    (hafter : chunks ((RunMerger.mk cmp f).groupLen len) after =
      (chunks ((RunMerger.mk cmp f).groupLen len) middle).map
        fun group => headMerge cmp (chunks len group)) :
    Coarsened cmp blockLen buffer ((RunMerger.mk cmp f).groupLen len) after := by
  have hpos : 0 < (RunMerger.mk cmp f).groupLen len := groupLen_pos _ h.pos
  have hlength : middle.length = buffer.length := h.length_eq hblock
  have hgroupLen : (RunMerger.mk cmp f).groupLen len = min (len * f.count) maxWord := rfl
  have hgrows : len ≤ len * f.count :=
    Nat.le_mul_of_pos_right len (Nat.zero_lt_two.trans_le f.two_le_count)
  by_cases hshort : buffer.length ≤ len
  · -- there is a single block, before the round and after it
    have hlong : buffer.length ≤ (RunMerger.mk cmp f).groupLen len := by omega
    refine ⟨hpos, Or.inr hlong, ?_⟩
    have hblocks : ∀ group ∈ chunks ((RunMerger.mk cmp f).groupLen len) middle,
        group.length ≤ len := fun group hgroup =>
      (length_le_of_mem_chunks hpos hgroup).trans (hlength.trans_le hshort)
    rw [hafter, map_headMerge_chunks_of_length_le hblocks,
      chunks_eq_of_length_le (hlength.trans_le hlong) (hlength.trans_le hshort), h.chunks_eq,
      chunks_eq_of_length_le hshort hlong]
  · have hdvd : blockLen ∣ len := h.aligned.resolve_right hshort
    refine ⟨hpos, ?_, ?_⟩
    · by_cases hfits : len * f.count ≤ maxWord
      · rw [hgroupLen, Nat.min_eq_left hfits]
        exact Or.inl (hdvd.mul_right f.count)
      · exact Or.inr (by omega)
    · rw [hafter, chunks_groupLen _ (hlength.trans_le hword), chunks_groupLen _ hword]
      exact h.map_headMerge_chunks_mul hblock hdvd (Nat.zero_lt_two.trans_le f.two_le_count)

/-- All chunks together have the head merge of all base blocks. -/
theorem headMerge_chunks (hblock : 0 < blockLen) (h : Coarsened cmp blockLen buffer len after) :
    headMerge cmp (chunks len after) = headMerge cmp (chunks blockLen buffer) := by
  rw [h.chunks_eq, headMerge_map_headMerge_chunks hblock h.pos h.aligned]

/-- If the base blocks were in order, each chunk is the stable sort of its places. -/
theorem chunks_eq_map_stableSort (hblock : 0 < blockLen)
    (h : Coarsened cmp blockLen buffer len after)
    (hordered : ∀ block ∈ chunks blockLen buffer, cmp.Ordered block) :
    chunks len after = (chunks len buffer).map cmp.stableSort := by
  rw [h.chunks_eq]
  refine List.map_congr_left fun group hgroup => ?_
  rw [headMerge_eq_stableSort, flatten_chunks hblock]
  intro block hmem
  refine hordered block ?_
  rw [← flatten_map_chunks hblock h.pos h.aligned]
  exact List.mem_flatten_of_mem (List.mem_map_of_mem hgroup) hmem

end Coarsened

/-- **What rounds in a row keep**, from a buffer that some rounds may have been made on before. -/
theorem run_coarsenEach {cmp : Comparator α} [Std.TransCmp cmp] {blockLen : Nat}
    (hblock : 0 < blockLen) {buffer : List α} (hword : buffer.length ≤ maxWord)
    (fanIns : List FanIn) {len : Nat} {middle : List α}
    (h : Coarsened cmp blockLen buffer len middle) :
    ∃ after events,
      Coarsened cmp blockLen buffer (lenAfter fanIns len) after ∧
      (coarsenEach cmp fanIns len).run middle = ⟨.ok (lenAfter fanIns len), after, events⟩ := by
  induction fanIns generalizing len middle with
  | nil => exact ⟨middle, [], h, rfl⟩
  | cons f fanIns ih =>
      obtain ⟨first, events, hchunks, hround⟩ :=
        run_coarsen_headMerge (RunMerger.mk cmp f) h.pos middle
      obtain ⟨after, later, hafter, hrun⟩ := ih (h.next hblock hword f hchunks)
      refine ⟨after, events ++ later, hafter, ?_⟩
      rw [coarsenEach]
      exact BufferM.run_bind_of_run hround hrun

/--
**The block length that rounds give describes the buffer that they leave**, whatever their fan-ins.
From ordered blocks each chunk of that length is the stable sort of its places. And whatever the
blocks hold, a selection or a sort that goes on from there brings out what it would have brought
out of the base blocks. This is about buffers in memory, which hold no more than `maxWord`
elements.
-/
theorem coarsenEach_describes_buffer
    (cmp : Comparator α) [Std.TransCmp cmp]
    {blockLen : Nat}
    (hblock : 1 ≤ blockLen)
    {buffer : List α}
    (hword : buffer.length ≤ maxWord)
    (fanIns : List FanIn) :
    ∃ len after events,
      (coarsenEach cmp fanIns blockLen).run buffer = ⟨.ok len, after, events⟩ ∧
      len = lenAfter fanIns blockLen ∧
      after.length = buffer.length ∧
      ((∀ block ∈ chunks blockLen buffer, cmp.Ordered block) →
        chunks len after = (chunks len buffer).map cmp.stableSort) ∧
      (∀ (f g : FanIn) (k : Nat), ∃ winners,
        (((RunMerger.mk cmp f).select len buffer.length k).run after).result = .ok winners ∧
        (((RunMerger.mk cmp g).select blockLen buffer.length k).run buffer).result =
          .ok winners) ∧
      (∀ f g : FanIn, ∃ sorted events events',
        ((RunMerger.mk cmp f).sortByCoarsening len).run after = ⟨.ok (), sorted, events⟩ ∧
        ((RunMerger.mk cmp g).sortByCoarsening blockLen).run buffer =
          ⟨.ok (), sorted, events'⟩) := by
  have hstart : Coarsened cmp blockLen buffer blockLen buffer := Coarsened.refl hblock buffer
  obtain ⟨after, events, h, hrun⟩ := run_coarsenEach hblock hword fanIns hstart
  have hlength : after.length = buffer.length := h.length_eq hblock
  refine ⟨_, after, events, hrun, rfl, hlength, h.chunks_eq_map_stableSort hblock, ?_, ?_⟩
  · intro f g k
    refine ⟨_, ?_, result_select (RunMerger.mk cmp g) hblock (Nat.le_refl buffer.length) k⟩
    rw [result_select (RunMerger.mk cmp f) h.pos hlength.ge, ← hlength, List.take_length,
      hlength, List.take_length, h.headMerge_chunks hblock]
  · intro f g
    obtain ⟨events, hsort⟩ :=
      run_sortByCoarsening (RunMerger.mk cmp f) h.pos (hlength.trans_le hword)
    obtain ⟨events', hsort'⟩ := run_sortByCoarsening (RunMerger.mk cmp g) hblock hword
    rw [h.headMerge_chunks hblock] at hsort
    exact ⟨_, events, events', hsort, hsort'⟩

theorem coarsenEach_of_disordered_and_ordered_blocks :
    (∃ after events winners,
      (coarsenEach Comparator.byTens [.two] 2).run [25, 10, 12, 11, 20, 3, 7] =
        ⟨.ok 4, after, events⟩ ∧
      after = [12, 11, 25, 10, 7, 20, 3] ∧
      (((RunMerger.mk Comparator.byTens .three).select 4 7 3).run after).result = .ok winners ∧
      (((RunMerger.mk Comparator.byTens .two).select 2 7 3).run
        [25, 10, 12, 11, 20, 3, 7]).result = .ok winners) ∧
    ∃ after events,
      (coarsenEach Comparator.byTens [.three, .two, .four] 1).run [25, 10, 12, 11, 20] =
        ⟨.ok 24, after, events⟩ ∧
      chunks 24 after = [[10, 12, 11, 25, 20]] := by
  obtain ⟨len, after, events, hrun, rfl, -, -, hselect, -⟩ :=
    coarsenEach_describes_buffer Comparator.byTens (show 1 ≤ 2 by decide)
      (show [25, 10, 12, 11, 20, 3, 7].length ≤ maxWord by decide) [.two]
  obtain ⟨len', after', events', hrun', rfl, -, hsorted, -⟩ :=
    coarsenEach_describes_buffer Comparator.byTens (show 1 ≤ 1 by decide)
      (show [25, 10, 12, 11, 20].length ≤ maxWord by decide) [.three, .two, .four]
  have hafter : ((coarsenEach Comparator.byTens [.two] 2).run
      [25, 10, 12, 11, 20, 3, 7]).buffer = [12, 11, 25, 10, 7, 20, 3] := by
    decide +kernel
  rw [hrun] at hafter
  obtain ⟨winners, hwinners, hwinners'⟩ := hselect .three .two 3
  have hordered : ∀ block ∈ chunks 1 [25, 10, 12, 11, 20], Comparator.byTens.Ordered block := by
    decide +kernel
  refine ⟨⟨after, events, winners, hrun, hafter, hwinners, hwinners'⟩, after', events', hrun', ?_⟩
  have hchunk : chunks 24 [25, 10, 12, 11, 20] = [[25, 10, 12, 11, 20]] :=
    chunks_of_length_le (by decide) (by decide)
  have hsort : Comparator.byTens.stableSort [25, 10, 12, 11, 20] = [10, 12, 11, 25, 20] := by
    cbv
  calc chunks 24 after' = (chunks 24 [25, 10, 12, 11, 20]).map Comparator.byTens.stableSort :=
        hsorted hordered
    _ = [[10, 12, 11, 25, 20]] := by rw [hchunk, List.map_singleton, hsort]

end KWayMerge
