import KWayMerge.Proofs.Buffer.Calls
import KWayMerge.Proofs.Buffer.Coarsening
import KWayMerge.Proofs.Buffer.Layout
import Mathlib.Algebra.Order.Floor.Div

/-!
# The rounds of a sort

A sort repeats rounds of coarsening as long as the block length is less than the length of the
buffer. Its measure goes by way of what a round returns, and that is a product cut down to a word.
Here the loop is followed round by round. A round cuts the buffer into groups, each group into
blocks, and merges the blocks of a group by way of a scratch that is as long as the first group.
The groups are slices, computed from lengths alone; it is shown that the merges go through where
they stand, whatever the comparator and the contents of the buffer, and how many rounds there are.

**Results.**
* `map_of_cut`: the pieces of a slice hold the chunks of what it holds.
* `performs_callsOver`: the merges of a round go through, one after another.
* `exists_round_in_place`: a round is never refused, and its groups fit.
* `RoundsWhile.run_coarsenUntil`, `RoundsWhile.unique`: the loop is the one that is run.
* `exists_roundsWhile`: the number of rounds, and what they report.
* `sortByCoarsening_takes_least_rounds`: all of this of a sort.
-/

namespace KWayMerge

/-! ### Slices cut into pieces -/

/-- The pieces of length `len` of a slice, the last possibly shorter. -/
def Slice.cut (len : Nat) (s : Slice) : List Slice :=
  (List.range (s.length ⌈/⌉ len)).map fun j => ⟨s.start + j * len, min len (s.length - j * len)⟩

section Cut

variable {len : Nat} {s piece : Slice}

theorem length_cut (len : Nat) (s : Slice) : (s.cut len).length = s.length ⌈/⌉ len := by
  rw [Slice.cut, List.length_map, List.length_range]

theorem length_le_of_mem_cut (h : piece ∈ s.cut len) : piece.length ≤ len := by
  obtain ⟨j, -, rfl⟩ := List.mem_map.1 h
  exact Nat.min_le_left _ _

theorem lt_ceilDiv_iff (hlen : 0 < len) (n j : Nat) : j < n ⌈/⌉ len ↔ j * len < n := by
  rw [← not_le, ← not_le, ceilDiv_le_iff_le_mul hlen, Nat.mul_comm]

/-- No piece reaches beyond the slice. -/
theorem end_le_of_mem_cut (hlen : 0 < len) (h : piece ∈ s.cut len) :
    piece.start + piece.length ≤ s.start + s.length := by
  obtain ⟨j, hj, rfl⟩ := List.mem_map.1 h
  have hstart : j * len < s.length := (lt_ceilDiv_iff hlen _ _).1 (List.mem_range.1 hj)
  dsimp only
  omega

theorem cut_of_length_eq_zero (hs : s.length = 0) : s.cut len = [] := by
  rw [Slice.cut, hs, zero_ceilDiv, List.range_zero, List.map_nil]

/-- The first piece is the front of the slice, and the others are the pieces of the rest. -/
theorem cut_of_length_pos (hlen : 0 < len) (hs : 0 < s.length) :
    s.cut len = ⟨s.start, min len s.length⟩ ::
      (Slice.mk (s.start + min len s.length) (s.length - len)).cut len := by
  have hcount : s.length ⌈/⌉ len = (s.length - len) ⌈/⌉ len + 1 := by
    by_cases hshort : s.length ≤ len
    · have hone : s.length ⌈/⌉ len ≤ 1 := (ceilDiv_le_iff_le_mul hlen).2 (by omega)
      have hsome : 0 < s.length ⌈/⌉ len := (lt_ceilDiv_iff hlen _ 0).2 (by omega)
      rw [Nat.sub_eq_zero_of_le hshort, zero_ceilDiv]
      omega
    · rw [Nat.ceilDiv_eq_add_pred_div, Nat.ceilDiv_eq_add_pred_div, ← Nat.add_div_right _ hlen]
      congr 1
      omega
  rw [Slice.cut, hcount, List.range_succ_eq_map, List.map_cons, List.map_map, Nat.zero_mul,
    Nat.add_zero, Nat.sub_zero]
  congr 1
  refine List.map_congr_left ?_
  intro j hj
  have hstart : j * len < s.length - len := (lt_ceilDiv_iff hlen _ _).1 (List.mem_range.1 hj)
  rw [Function.comp_apply, Nat.succ_mul, Slice.mk.injEq]
  constructor
  · dsimp only
    omega
  · dsimp only
    rw [Nat.sub_sub, Nat.add_comm len]

/-- **The pieces of a slice hold the chunks of what the slice holds.** -/
theorem map_of_cut {α : Type} (hlen : 0 < len) (left xs right : List α) :
    ((Slice.mk left.length xs.length).cut len).map (fun s => s.of (left ++ (xs ++ right))) =
      chunks len xs := by
  induction xs using chunks_induction hlen generalizing left with
  | nil => rw [cut_of_length_eq_zero rfl, List.map_nil, chunks_nil]
  | step xs hxs ih =>
      have hpos : 0 < xs.length := List.length_pos_iff.2 hxs
      have hrest := ih (left ++ xs.take len)
      rw [List.length_append, List.length_take, List.length_drop] at hrest
      rw [cut_of_length_pos hlen hpos, List.map_cons, chunks_of_ne_nil hlen hxs, ← hrest]
      refine congrArg₂ List.cons ?_ ?_
      · rw [Slice.of, List.drop_left, List.take_append_of_le_length (Nat.min_le_right _ _),
          List.take_eq_take_iff]
        omega
      · rw [List.append_assoc, ← List.append_assoc (xs.take len), List.take_append_drop]

end Cut

variable {α : Type}

/-! ### The merges of a round -/

/-- The call that merges the blocks of a group, unless the group is a lone block. -/
def groupCalls (blockLen : Nat) (group : Slice) : List MergeCall :=
  if (group.cut blockLen).length < 2 then
    []
  else
    [{ reads := group.cut blockLen, target := group.start, capacity := group.length,
       track := false }]

namespace RunMerger

/-- The groups of a round over a slice. -/
def groupsOf (m : RunMerger α) (blockLen : Nat) (s : Slice) : List Slice :=
  s.cut (m.groupLen blockLen)

/-- The calls of a round over a slice. -/
def callsOver (m : RunMerger α) (blockLen : Nat) (s : Slice) : List MergeCall :=
  (m.groupsOf blockLen s).flatMap (groupCalls blockLen)

end RunMerger

/--
A round takes the buffer to `after` by merges in their places: no group has more blocks than the
fan-in, every group fits into the scratch, which is as long as the first of them, and the calls
for the groups go through.
-/
structure RoundInPlace (m : RunMerger α) (blockLen : Nat) (buffer after : List α) : Prop where
  length_le_count : ∀ group ∈ m.groupsOf blockLen ⟨0, buffer.length⟩,
    (group.cut blockLen).length ≤ m.fanIn.count
  length_le_scratch : ∀ group ∈ m.groupsOf blockLen ⟨0, buffer.length⟩,
    group.length ≤ (buffer.take (m.groupLen blockLen)).length
  performs : ∃ scratch,
    Performs m ⟨buffer, buffer.take (m.groupLen blockLen)⟩
      (m.callsOver blockLen ⟨0, buffer.length⟩) ⟨after, scratch⟩

section Round

variable (m : RunMerger α) {blockLen k : Nat}

/-- **The call for a group gathers its blocks; a lone block is gathered by being left alone.** -/
theorem performs_groupCalls (hblock : 0 < blockLen) {group : List α}
    (hfan : group.length ≤ blockLen * m.fanIn.count) (hk : group.length ≤ k)
    (left right : List α) {scratch : List α} (hscratch : scratch.length = k) :
    ∃ other, other.length = k ∧
      Performs m ⟨left ++ (group ++ right), scratch⟩
        (groupCalls blockLen ⟨left.length, group.length⟩)
        ⟨left ++ (gather m.cmp k (chunks blockLen group) ++ right), other⟩ := by
  have hflatten : (chunks blockLen group).flatten = group := flatten_chunks hblock group
  have hruns := map_of_cut hblock left group right
  have hcount : ((Slice.mk left.length group.length).cut blockLen).length =
      (chunks blockLen group).length := by
    rw [← hruns, List.length_map]
  rw [groupCalls, hcount]
  split
  · next hfew =>
      rw [gather_chunks_of_length_lt_two hblock hfew]
      exact ⟨scratch, hscratch, .nil _⟩
  · next hmany =>
      have hpos : 0 < group.length := by
        rw [List.length_pos_iff]
        rintro rfl
        simp at hmany
      have hcall := performs_singleton m
        (c := ⟨(Slice.mk left.length group.length).cut blockLen, left.length, group.length, false⟩)
        left right (not_lt.1 hmany) (length_chunks_le_count m hblock hfan) ?_ ?_ rfl ?_ hpos
        hscratch
      · rwa [hflatten] at hcall
      · intro s hs
        have hend := end_le_of_mem_cut hblock hs
        rw [hflatten, List.length_append, List.length_append]
        dsimp only at hend
        omega
      · rw [hflatten, MergeCall.runs, hruns]
      · rw [hflatten]
        exact (Nat.min_eq_right hk).symm

/-- **The calls of a round go through, and take the chunks to longer ones.** -/
theorem performs_callsOver (hblock : 0 < blockLen) (rest left : List α)
    (hk : min (m.groupLen blockLen) rest.length ≤ k)
    {scratch : List α} (hscratch : scratch.length = k) :
    ∃ other, other.length = k ∧
      Performs m ⟨left ++ rest, scratch⟩ (m.callsOver blockLen ⟨left.length, rest.length⟩)
        ⟨left ++ (mergedChunks m k blockLen rest).flatten, other⟩ := by
  have hlen : 0 < m.groupLen blockLen := groupLen_pos m hblock
  -- along the groups; those done stand in front, as long as they were before
  induction rest using chunks_induction hlen generalizing left scratch with
  | nil =>
      rw [RunMerger.callsOver, RunMerger.groupsOf, cut_of_length_eq_zero rfl, mergedChunks,
        chunks_nil]
      exact ⟨scratch, hscratch, .nil _⟩
  | step rest hrest ih =>
      have hpos : 0 < rest.length := List.length_pos_iff.2 hrest
      have hgroup : (rest.take (m.groupLen blockLen)).length =
          min (m.groupLen blockLen) rest.length := List.length_take
      have hfan : (rest.take (m.groupLen blockLen)).length ≤ blockLen * m.fanIn.count :=
        (List.length_take_le _ _).trans (Nat.min_le_left _ _)
      obtain ⟨middle, hmiddle, hfirst⟩ := performs_groupCalls m hblock hfan (by omega) left
        (rest.drop (m.groupLen blockLen)) hscratch
      have hdone : (left ++ gather m.cmp k
          (chunks blockLen (rest.take (m.groupLen blockLen)))).length =
            left.length + min (m.groupLen blockLen) rest.length := by
        rw [List.length_append, length_gather, flatten_chunks hblock, hgroup]
      obtain ⟨other, hother, hlater⟩ := ih (left ++ gather m.cmp k
        (chunks blockLen (rest.take (m.groupLen blockLen)))) (by rw [List.length_drop]; omega)
        hmiddle
      refine ⟨other, hother, ?_⟩
      rw [List.take_append_drop, hgroup] at hfirst
      rw [hdone, List.length_drop, List.append_assoc, List.append_assoc] at hlater
      rw [RunMerger.callsOver, RunMerger.groupsOf, cut_of_length_pos hlen hpos,
        List.flatMap_cons, mergedChunks, chunks_of_ne_nil hlen hrest, List.map_cons,
        List.flatten_cons]
      exact hfirst.append hlater

/-- **A round is not refused, and all its merges are made in their places.** -/
theorem exists_round_in_place (hblock : 0 < blockLen) {buffer : List α}
    (hlong : blockLen < buffer.length) :
    ∃ middle,
      (m.coarsen blockLen).run buffer =
        ⟨.ok (m.groupLen blockLen), middle, [coarseningEvent m buffer.length blockLen]⟩ ∧
      middle.length = buffer.length ∧
      RoundInPlace m blockLen buffer middle := by
  have hlen : 0 < m.groupLen blockLen := groupLen_pos m hblock
  have hscratch : (buffer.take (m.groupLen blockLen)).length =
      min (m.groupLen blockLen) buffer.length := List.length_take
  refine ⟨_, run_coarsen m hblock hlong hscratch.ge, length_flatten_mergedChunks m hblock _,
    ?_, ?_, ?_⟩
  · intro group hgroup
    rw [length_cut, ceilDiv_le_iff_le_mul hblock]
    exact (length_le_of_mem_cut hgroup).trans (Nat.min_le_left _ _)
  · intro group hgroup
    have hpiece : group.length ≤ m.groupLen blockLen := length_le_of_mem_cut hgroup
    have hend := end_le_of_mem_cut hlen hgroup
    dsimp only at hend
    omega
  · obtain ⟨scratch, -, hperforms⟩ :=
      performs_callsOver m hblock buffer [] hscratch.ge rfl
    exact ⟨scratch, hperforms⟩

end Round

/-! ### The loop -/

/--
The loop of a sort, from blocks of length `len`: as long as they are shorter than the buffer, a
round is made, and its merges in their places. What is counted are the rounds; what they report
comes in a row.
-/
inductive RoundsWhile (m : RunMerger α) :
    (len : Nat) → (buffer : List α) → (rounds : Nat) → (after : List α) → List Event → Prop
  | stop {len : Nat} {buffer : List α} (h : buffer.length ≤ len) :
      RoundsWhile m len buffer 0 buffer []
  | round
      {len next rounds : Nat} {buffer middle after : List α} {events later : List Event}
      (hlong : len < buffer.length)
      (hrun : (m.coarsen len).run buffer = ⟨.ok next, middle, events⟩)
      (hplace : RoundInPlace m len buffer middle)
      (hrest : RoundsWhile m next middle rounds after later) :
      RoundsWhile m len buffer (rounds + 1) after (events ++ later)

section Loop

variable {m : RunMerger α} {len rounds : Nat} {buffer after : List α} {events : List Event}

/-- There is one way through the loop. -/
theorem RoundsWhile.unique (h : RoundsWhile m len buffer rounds after events)
    {rounds' : Nat} {after' : List α} {events' : List Event}
    (h' : RoundsWhile m len buffer rounds' after' events') :
    rounds' = rounds ∧ after' = after ∧ events' = events := by
  induction h generalizing rounds' after' events' with
  | stop hle =>
      cases h' with
      | stop => exact ⟨rfl, rfl, rfl⟩
      | round hlong => omega
  | round hlong hrun _ _ ih =>
      cases h' with
      | stop hle => omega
      | round _ hrun' _ hrest' =>
          rw [hrun, Outcome.mk.injEq, Except.ok.injEq] at hrun'
          obtain ⟨rfl, rfl, rfl⟩ := hrun'
          obtain ⟨rfl, rfl, rfl⟩ := ih hrest'
          exact ⟨rfl, rfl, rfl⟩

/-- A round over more than one block of a buffer in memory lengthens the blocks. -/
theorem lt_groupLen (hpos : 0 < len) (hlong : len < buffer.length)
    (hword : buffer.length ≤ maxWord) : len < m.groupLen len := by
  have hdouble : len * 2 ≤ len * m.fanIn.count := Nat.mul_le_mul_left len m.fanIn.two_le_count
  rw [RunMerger.groupLen]
  omega

/-- **Who goes through the loop runs all rounds.** -/
theorem RoundsWhile.run_coarsenUntil (h : RoundsWhile m len buffer rounds after events)
    (hpos : 0 < len) (hword : buffer.length ≤ maxWord) :
    (m.coarsenUntil buffer.length len).run buffer = ⟨.ok (), after, events⟩ := by
  induction h with
  | stop hle => rw [RunMerger.coarsenUntil, dif_neg (by omega), BufferM.run_pure]
  | round hlong hrun _ _ ih =>
      obtain ⟨middle, hrun', hlength, -⟩ := exists_round_in_place m hpos hlong
      rw [hrun, Outcome.mk.injEq, Except.ok.injEq] at hrun'
      obtain ⟨rfl, rfl, -⟩ := hrun'
      have hrest := ih (groupLen_pos m hpos) (hlength.trans_le hword)
      rw [RunMerger.coarsenUntil, dif_pos hlong]
      refine BufferM.run_bind_of_run hrun ?_
      rw [dif_pos (lt_groupLen hpos hlong hword), ← hlength]
      exact hrest

/--
After a round there is one round less to go. A group length that has been cut down to a word is no
exception, since no buffer in memory is longer.
-/
theorem isLeast_of_isLeast_succ {n : Nat} (hword : n ≤ maxWord)
    (h : IsLeast {r | n ≤ Plan.levelLen len m.fanIn r} (rounds + 1)) :
    IsLeast {r | n ≤ Plan.levelLen (m.groupLen len) m.fanIn r} rounds ∧
      ∀ i < rounds, Plan.levelLen (m.groupLen len) m.fanIn i =
        Plan.levelLen len m.fanIn (i + 1) := by
  by_cases hfits : len * m.fanIn.count ≤ maxWord
  · rw [RunMerger.groupLen, Nat.min_eq_left hfits]
    simp only [Plan.levelLen_mul_count]
    refine ⟨⟨h.1, ?_⟩, fun _ _ => trivial⟩
    intro r hr
    exact Nat.le_of_succ_le_succ (h.2 hr)
  · have hone : n ≤ Plan.levelLen len m.fanIn 1 := by
      rw [Plan.levelLen_succ, Plan.levelLen_zero]
      omega
    obtain rfl : rounds = 0 := Nat.le_zero.1 (Nat.le_of_succ_le_succ (h.2 hone))
    rw [RunMerger.groupLen, Nat.min_eq_right (by omega)]
    refine ⟨⟨?_, fun _ _ => Nat.zero_le _⟩, fun i hi => absurd hi (Nat.not_lt_zero i)⟩
    change n ≤ Plan.levelLen maxWord m.fanIn 0
    rwa [Plan.levelLen_zero]

/-- **The loop ends after as many rounds as it takes for one block to hold all elements.** -/
theorem exists_roundsWhile (hpos : 0 < len) (hword : buffer.length ≤ maxWord)
    (h : IsLeast {r | buffer.length ≤ Plan.levelLen len m.fanIn r} rounds) :
    ∃ after, RoundsWhile m len buffer rounds after
      ((List.range rounds).map fun i =>
        coarseningEvent m buffer.length (Plan.levelLen len m.fanIn i)) := by
  induction rounds generalizing len buffer with
  | zero =>
      have hshort : buffer.length ≤ len := by simpa using h.1
      exact ⟨buffer, .stop hshort⟩
  | succ rounds ih =>
      have hlong : len < buffer.length := by
        by_contra hshort
        have hzero : buffer.length ≤ Plan.levelLen len m.fanIn 0 := by
          rw [Plan.levelLen_zero]
          omega
        exact absurd (h.2 hzero) (Nat.not_succ_le_zero rounds)
      obtain ⟨middle, hrun, hlength, hplace⟩ := exists_round_in_place m hpos hlong
      obtain ⟨hleast, hlevels⟩ := isLeast_of_isLeast_succ hword h
      rw [← hlength] at hleast
      obtain ⟨after, hrest⟩ := ih (groupLen_pos m hpos) (hlength.trans_le hword) hleast
      refine ⟨after, ?_⟩
      have hevents : ((List.range rounds).map fun i => coarseningEvent m middle.length
            (Plan.levelLen (m.groupLen len) m.fanIn i)) =
          (List.range rounds).map fun i =>
            coarseningEvent m buffer.length (Plan.levelLen len m.fanIn (i + 1)) := by
        refine List.map_congr_left ?_
        intro i hi
        rw [hlength, hlevels i (List.mem_range.1 hi)]
      rw [hevents] at hrest
      rw [List.range_succ_eq_map, List.map_cons, List.map_map, Plan.levelLen_zero]
      exact .round hlong hrun hplace hrest

/-- Blocks that are lengthened again and again hold any number of elements in the end. -/
theorem exists_isLeast_levelLen (hpos : 0 < len) (f : FanIn) (n : Nat) :
    ∃ rounds, IsLeast {r | n ≤ Plan.levelLen len f r} rounds :=
  ⟨_, Nat.isLeast_find ⟨n, (Plan.strictMono_levelLen hpos f).le_apply⟩⟩

/-- A round reports the blocks that it finds and the groups that it makes of them. -/
theorem coarseningEvent_levelLen (m : RunMerger α) (n blockLen i : Nat) :
    coarseningEvent m n (Plan.levelLen blockLen m.fanIn i) =
      .coarsening (blockLen * m.fanIn.count ^ i)
        (n ⌈/⌉ min (blockLen * m.fanIn.count ^ (i + 1)) (2 ^ 64 - 1)) := by
  rw [coarseningEvent, RunMerger.groupLen, ← Plan.levelLen_succ, Nat.ceilDiv_eq_add_pred_div]
  rfl

end Loop

/--
**A sort takes the least number of rounds after which one block holds the buffer.** The loop ends
after just so many, whatever the comparator and the contents of the buffer. No round is refused:
the groups have no more blocks than the fan-in, fit into the scratch, and their merges go through.
Each round reports the length of the blocks that it finds and the number of its groups, and nothing
else is reported. This is about buffers in memory, which hold no more than `maxWord` elements.
-/
theorem sortByCoarsening_takes_least_rounds
    (m : RunMerger α)
    {blockLen : Nat}
    (hblock : 1 ≤ blockLen)
    {buffer : List α}
    (hword : buffer.length ≤ maxWord) :
    ∃ rounds after events,
      IsLeast {r | buffer.length ≤ blockLen * m.fanIn.count ^ r} rounds ∧
      events = (List.range rounds).map (fun i =>
        Event.coarsening (blockLen * m.fanIn.count ^ i)
          (buffer.length ⌈/⌉ min (blockLen * m.fanIn.count ^ (i + 1)) (2 ^ 64 - 1))) ∧
      (∀ rounds' after' events', RoundsWhile m blockLen buffer rounds' after' events' ↔
        rounds' = rounds ∧ after' = after ∧ events' = events) ∧
      (m.sortByCoarsening blockLen).run buffer = ⟨.ok (), after, events⟩ := by
  obtain ⟨rounds, hleast⟩ := exists_isLeast_levelLen hblock m.fanIn buffer.length
  obtain ⟨after, hloop⟩ := exists_roundsWhile (m := m) hblock hword hleast
  simp only [coarseningEvent_levelLen] at hloop
  refine ⟨rounds, after, _, hleast, rfl, ?_, ?_⟩
  · intro rounds' after' events'
    constructor
    · exact hloop.unique
    · rintro ⟨rfl, rfl, rfl⟩
      exact hloop
  · rw [RunMerger.sortByCoarsening, if_neg (by omega),
      BufferM.run_bind_of_silent (BufferM.run_contents _)]
    exact hloop.run_coarsenUntil hblock hword

/--
Three rounds with a lone block in the first and a short group in the second, under a comparator
that obeys no law; and one round with a group length that is cut down to a word.
-/
theorem sortByCoarsening_of_short_and_of_long_blocks :
    (∃ after,
      RoundsWhile (RunMerger.mk Comparator.alwaysBefore .two) 1 [5, 1, 4, 2, 3, 9, 8] 3 after
        [.coarsening 1 4, .coarsening 2 2, .coarsening 4 1]) ∧
    ∃ after,
      RoundsWhile (RunMerger.mk Comparator.alwaysBefore .four) (2 ^ 62)
        (List.replicate (2 ^ 63 - 1) 7) 1 after [.coarsening (2 ^ 62) 1] := by
  have hlong : (List.replicate (2 ^ 63 - 1) 7).length = 2 ^ 63 - 1 := List.length_replicate
  obtain ⟨rounds, after, events, hleast, rfl, hloop, -⟩ :=
    sortByCoarsening_takes_least_rounds (RunMerger.mk Comparator.alwaysBefore .two)
      (show 1 ≤ 1 by decide) (show [5, 1, 4, 2, 3, 9, 8].length ≤ maxWord by decide)
  obtain ⟨rounds', after', events', hleast', rfl, hloop', -⟩ :=
    sortByCoarsening_takes_least_rounds (RunMerger.mk Comparator.alwaysBefore .four)
      (show 1 ≤ 2 ^ 62 by decide) (hlong.trans_le (show 2 ^ 63 - 1 ≤ maxWord by decide))
  rw [hlong] at hleast' hloop'
  obtain rfl : rounds = 3 := by
    refine hleast.unique ⟨by decide, ?_⟩
    intro r hr
    by_contra hlt
    interval_cases r <;> simp [FanIn.count] at hr
  obtain rfl : rounds' = 1 := by
    refine hleast'.unique ⟨by decide, ?_⟩
    intro r hr
    by_contra hlt
    interval_cases r
    simp [FanIn.count] at hr
  exact ⟨⟨after, (hloop _ _ _).2 ⟨rfl, rfl, by decide⟩⟩,
    after', (hloop' _ _ _).2 ⟨rfl, rfl, by decide⟩⟩

end KWayMerge
