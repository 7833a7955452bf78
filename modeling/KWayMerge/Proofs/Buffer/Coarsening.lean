import KWayMerge.Buffer.Coarsen
import KWayMerge.Proofs.Buffer.Selection

/-!
# What coarsening leaves in the buffer

A round of coarsening replaces each chunk of the new length by the merge of the chunks of the old
length in it. With as many elements counted as the buffer holds, that is a gathering of the old
chunks, and a lone chunk is gathered by being left alone. So repeated rounds, whatever the
comparator and the contents of the buffer, gather the base blocks into a single segment, as a
selection does with other groups.

A buffer in memory is no longer than the largest word, which is what keeps a group length that
has been cut down to that word from ending the rounds too early.

**Results.**
* `gather_chunks_of_length_lt_two`: a lone block is gathered by being left alone.
* `mergeAdjacent_eq_ok`: no group is refused, and each is gathered.
* `run_coarsen`: the effect of one round.
* `run_coarsenUntil_of_round`: what every round keeps, all rounds keep.
* `run_coarsenUntil`: the effect of all rounds.
-/

namespace KWayMerge

variable {α : Type} (m : RunMerger α) {blockLen k : Nat}

/-! ### One round -/

/-- A lone block is gathered by being left alone. -/
theorem gather_chunks_of_length_lt_two {cmp : Comparator α} (hblock : 0 < blockLen)
    {group : List α} (hfew : (chunks blockLen group).length < 2) :
    gather cmp k (chunks blockLen group) = group := by
  have hflatten : (chunks blockLen group).flatten = group := flatten_chunks hblock group
  rcases hblocks : chunks blockLen group with _ | ⟨block, _ | ⟨other, others⟩⟩
  · rw [gather_nil, ← hflatten, hblocks, List.flatten_nil]
  · rw [gather_singleton, ← hflatten, hblocks, List.flatten_singleton]
  · rw [hblocks] at hfew
    simp at hfew

/-- A group that is no longer than the fan-in allows has no more blocks than the fan-in. -/
theorem length_chunks_le_count (hblock : 0 < blockLen) {group : List α}
    (hfan : group.length ≤ blockLen * m.fanIn.count) :
    (chunks blockLen group).length ≤ m.fanIn.count := by
  rw [length_chunks hblock, Nat.div_le_iff_le_mul_add_pred hblock]
  omega

/-- **The blocks of a group that fits the fan-in are gathered.** -/
theorem mergeAdjacent_eq_ok
    (hblock : 0 < blockLen)
    {group : List α}
    (hfan : group.length ≤ blockLen * m.fanIn.count)
    (hk : group.length ≤ k) :
    m.mergeAdjacent blockLen group = .ok (gather m.cmp k (chunks blockLen group)) := by
  have hflatten : (chunks blockLen group).flatten = group := flatten_chunks hblock group
  rw [RunMerger.mergeAdjacent]
  split
  · next hfew => rw [gather_chunks_of_length_lt_two hblock hfew]
  · next hmany =>
      have hpos : 0 < group.length := by
        rw [List.length_pos_iff]
        rintro rfl
        simp at hmany
      rw [merge_eq_ok (by omega) (length_chunks_le_count m hblock hfan) hpos,
        picks_eq_of_agree rfl hk (by rw [hflatten]; omega)]
      rw [gather, hflatten]

/-- A group length that was cut down to a word cuts nothing off a buffer in memory. -/
theorem chunks_groupLen {buffer : List α} (hword : buffer.length ≤ maxWord) :
    chunks (m.groupLen blockLen) buffer = chunks (blockLen * m.fanIn.count) buffer := by
  by_cases hne : buffer = []
  · rw [hne, chunks_nil, chunks_nil]
  · rw [RunMerger.groupLen]
    by_cases hfits : blockLen * m.fanIn.count ≤ maxWord
    · rw [Nat.min_eq_left hfits]
    · rw [Nat.min_eq_right (by omega), chunks_of_length_le hne hword,
        chunks_of_length_le hne (by omega)]

/-- The chunks of a buffer after a round. -/
def mergedChunks (k blockLen : Nat) (buffer : List α) : List (List α) :=
  (chunks (m.groupLen blockLen) buffer).map fun group => gather m.cmp k (chunks blockLen group)

theorem groupLen_pos (hblock : 0 < blockLen) : 0 < m.groupLen blockLen := by
  have hmul : 0 < blockLen * m.fanIn.count := m.fanIn.mul_count_pos hblock
  rw [RunMerger.groupLen, maxWord]
  omega

theorem chunks_flatten_mergedChunks (hblock : 0 < blockLen) (buffer : List α) :
    chunks (m.groupLen blockLen) (mergedChunks m k blockLen buffer).flatten =
      mergedChunks m k blockLen buffer := by
  refine chunks_flatten_map_chunks (groupLen_pos m hblock) ?_ buffer
  intro group
  rw [length_gather, flatten_chunks hblock]

def coarseningEvent (n blockLen : Nat) : Event :=
  .coarsening blockLen ((n + m.groupLen blockLen - 1) / m.groupLen blockLen)

/-- **A round of coarsening, which is not refused.** -/
theorem run_coarsen
    (hblock : 0 < blockLen)
    {buffer : List α}
    (hlong : blockLen < buffer.length)
    (hk : min (m.groupLen blockLen) buffer.length ≤ k) :
    (m.coarsen blockLen).run buffer =
      ⟨.ok (m.groupLen blockLen), (mergedChunks m k blockLen buffer).flatten,
        [coarseningEvent m buffer.length blockLen]⟩ := by
  have hmerge : (chunks (m.groupLen blockLen) buffer).mapM (m.mergeAdjacent blockLen) =
      .ok (mergedChunks m k blockLen buffer) := by
    refine mapM_eq_ok ?_
    intro group hgroup
    have hlength := (length_of_mem_chunks (groupLen_pos m hblock) hgroup).2
    have hsub : group.length ≤ buffer.length :=
      length_le_of_mem_chunks (groupLen_pos m hblock) hgroup
    exact mergeAdjacent_eq_ok m hblock (hlength.trans (Nat.min_le_left _ _))
      ((Nat.le_min.2 ⟨hlength, hsub⟩).trans hk)
  rw [RunMerger.coarsen, if_neg (by omega),
    BufferM.run_bind_of_silent (BufferM.run_contents _)]
  dsimp only
  rw [if_neg (by omega)]
  refine BufferM.run_bind_of_run (BufferM.run_emit _ _) ?_
  rw [hmerge, BufferM.run_bind_of_silent (BufferM.run_ofExcept _ _),
    BufferM.run_bind_of_silent (BufferM.run_replace _ _), BufferM.run_pure]

/-- A round over a single block changes nothing, but gives the length of a group all the same. -/
theorem run_coarsen_of_length_le
    (hblock : 0 < blockLen)
    {buffer : List α}
    (hshort : buffer.length ≤ blockLen) :
    (m.coarsen blockLen).run buffer = ⟨.ok (m.groupLen blockLen), buffer, []⟩ := by
  rw [RunMerger.coarsen, if_neg (by omega), BufferM.run_bind_of_silent (BufferM.run_contents _)]
  dsimp only
  rw [if_pos hshort, BufferM.run_pure]

/-- **A round gathers chunks into chunks of the new length.** -/
theorem gathers_mergedChunks
    (hblock : 0 < blockLen)
    {buffer : List α}
    (hword : buffer.length ≤ maxWord) :
    Gathers m.cmp k (chunks blockLen buffer) (mergedChunks m k blockLen buffer) := by
  have hfan : 0 < m.fanIn.count := Nat.lt_of_lt_of_le Nat.zero_lt_two m.fanIn.two_le_count
  have hgroups : mergedChunks m k blockLen buffer =
      (chunks m.fanIn.count (chunks blockLen buffer)).map (gather m.cmp k) := by
    rw [mergedChunks, chunks_groupLen m hword, ← map_flatten_chunks_chunks hblock hfan,
      List.map_map]
    refine List.map_congr_left ?_
    intro group hgroup
    rw [Function.comp_apply, chunks_flatten_of_mem_chunks hblock hfan hgroup]
  have hgathers : Gathers m.cmp k
      ([] ++ (chunks m.fanIn.count (chunks blockLen buffer)).flatten ++ [])
      ([] ++ (chunks m.fanIn.count (chunks blockLen buffer)).map (gather m.cmp k) ++ []) :=
    gathers_map [] _ []
  rw [flatten_chunks hfan, List.append_nil, List.append_nil] at hgathers
  rw [hgroups]
  exact hgathers

theorem length_flatten_mergedChunks (hblock : 0 < blockLen) (buffer : List α) :
    (mergedChunks m k blockLen buffer).flatten.length = buffer.length := by
  have hlengths : (mergedChunks m k blockLen buffer).map List.length =
      (chunks (m.groupLen blockLen) buffer).map List.length := by
    rw [mergedChunks, List.map_map]
    refine List.map_congr_left ?_
    intro group _
    rw [Function.comp_apply, length_gather, flatten_chunks hblock]
  rw [List.length_flatten, hlengths, ← List.length_flatten,
    flatten_chunks (groupLen_pos m hblock)]

/-! ### All rounds -/

/--
**What every round keeps, all rounds keep.** They end with one chunk, or with chunks of the
largest length there is.
-/
theorem run_coarsenUntil_of_round
    {Kept : Nat → List α → Prop}
    (hround : ∀ len buffer, 0 < len → len < buffer.length → Kept len buffer →
      Kept (m.groupLen len) (mergedChunks m buffer.length len buffer).flatten)
    (hblock : 0 < blockLen)
    {buffer : List α}
    (hkept : Kept blockLen buffer) :
    ∃ after len events,
      Kept len after ∧
      (after.length ≤ len ∨ len = maxWord) ∧
      (m.coarsenUntil buffer.length blockLen).run buffer = ⟨.ok (), after, events⟩ := by
  -- a round changes the buffer but not its length, and the block length grows towards that
  induction hn : buffer.length - blockLen using Nat.strongRecOn generalizing blockLen buffer with
  | ind n ih =>
    by_cases hlong : blockLen < buffer.length
    · have hfirst := run_coarsen m hblock hlong (Nat.min_le_right _ _)
      have hlater := hround blockLen buffer hblock hlong hkept
      by_cases hgrows : blockLen < m.groupLen blockLen
      · have hlength : (mergedChunks m buffer.length blockLen buffer).flatten.length =
            buffer.length :=
          length_flatten_mergedChunks m hblock buffer
        obtain ⟨after, len, events, hend, hlast, hrun⟩ :=
          ih (buffer.length - m.groupLen blockLen) (by omega) (groupLen_pos m hblock) hlater
            (by rw [hlength])
        rw [hlength] at hrun
        refine ⟨after, len, [coarseningEvent m buffer.length blockLen] ++ events, hend, hlast, ?_⟩
        rw [RunMerger.coarsenUntil, dif_pos hlong]
        refine BufferM.run_bind_of_run hfirst ?_
        rw [dif_pos hgrows]
        exact hrun
      · have hlast : m.groupLen blockLen = maxWord := by
          have hdouble : blockLen * 2 ≤ blockLen * m.fanIn.count :=
            Nat.mul_le_mul_left blockLen m.fanIn.two_le_count
          rw [RunMerger.groupLen] at hgrows ⊢
          omega
        refine ⟨_, m.groupLen blockLen, [coarseningEvent m buffer.length blockLen] ++ [], hlater,
          Or.inr hlast, ?_⟩
        rw [RunMerger.coarsenUntil, dif_pos hlong]
        refine BufferM.run_bind_of_run hfirst ?_
        rw [dif_neg hgrows, BufferM.run_pure]
    · refine ⟨buffer, blockLen, [], hkept, Or.inl (by omega), ?_⟩
      rw [RunMerger.coarsenUntil, dif_neg hlong, BufferM.run_pure]

/-- **Rounds are repeated until one chunk is left, into which all others have been gathered.** -/
theorem run_coarsenUntil
    (hblock : 0 < blockLen)
    {buffer : List α}
    (hword : buffer.length ≤ maxWord) :
    ∃ after len events,
      Gathers m.cmp buffer.length (chunks blockLen buffer) (chunks len after) ∧
      after.length ≤ len ∧
      (m.coarsenUntil buffer.length blockLen).run buffer = ⟨.ok (), after, events⟩ := by
  have hround : ∀ len middle, 0 < len → len < middle.length →
      (middle.length = buffer.length ∧
        Gathers m.cmp buffer.length (chunks blockLen buffer) (chunks len middle)) →
      (mergedChunks m middle.length len middle).flatten.length = buffer.length ∧
        Gathers m.cmp buffer.length (chunks blockLen buffer)
          (chunks (m.groupLen len) (mergedChunks m middle.length len middle).flatten) := by
    rintro len middle hlen - ⟨hlength, hgathers⟩
    constructor
    · rw [length_flatten_mergedChunks m hlen, hlength]
    · rw [chunks_flatten_mergedChunks m hlen, hlength]
      exact hgathers.trans (gathers_mergedChunks m hlen (hlength.trans_le hword))
  obtain ⟨after, len, events, ⟨hlength, hgathers⟩, hlast, hrun⟩ :=
    run_coarsenUntil_of_round m hround hblock ⟨rfl, Relation.ReflTransGen.refl⟩
  refine ⟨after, len, events, hgathers, ?_, hrun⟩
  rcases hlast with hle | rfl
  · exact hle
  · rw [hlength]
    exact hword

end KWayMerge
