import KWayMerge.Merge.Stream
import KWayMerge.Proofs.Buffer.Chunks
import KWayMerge.Proofs.Merge.Progress

/-!
# The pieces of a stream

A stream may be asked for a piece any number of times. Its answers are the chunks of the one
merge of its runs, and none from then on: it comes to its end because everything has been put
out, and never because something inside it was refused. The comparator may be any, and the runs
in any order.

**Results.**
* `next?_after`: what one request does, after some pieces.
* `asked_after`: what any number of requests leads to.
* `answer_after`: the answers are the chunks of the whole output.
* `stream_pieces`: all of this of a stream that is started.
-/

namespace KWayMerge

universe u

variable {α : Type u}

namespace MergeStream

/-- The stream after so many requests for a piece; a request at the end changes nothing. -/
def asked (s : MergeStream α) : Nat → MergeStream α
  | 0 => s
  | n + 1 =>
      match (s.asked n).next? with
      | none => s.asked n
      | some (_, rest) => rest

/-- The answer to a request, the first of which has number zero. -/
def answer (s : MergeStream α) (n : Nat) : Option (List α) :=
  (s.asked n).next?.map Prod.fst

/-- What remains of the runs is merged, and the progress moves on: nothing is refused. -/
def Proceeds (s : MergeStream α) : Prop :=
  ∃ merged tally progress,
    s.merger.merge (s.progress.remainingRuns s.runs) s.chunk true = .ok merged ∧
    merged.tally = some tally ∧
    s.progress.advance tally = .ok progress

/-- The stream after `n` pieces. -/
def after (m : RunMerger α) (runs : List (List α)) (chunk n : Nat) : MergeStream α :=
  ⟨m, runs, Progress.after runs (picks m.cmp .atCapacity (n * chunk) runs), chunk⟩

/-- The picks of piece `n`, from what the pieces before have left. -/
def piecePicks (m : RunMerger α) (runs : List (List α)) (chunk n : Nat) : List (Pick α) :=
  picks m.cmp .atCapacity chunk (runsAfter runs (picks m.cmp .atCapacity (n * chunk) runs))

section Requests

variable {m : RunMerger α} {runs : List (List α)} {chunk : Nat}

theorem isFinished_after (n : Nat) :
    (after m runs chunk n).progress.isFinished = true ↔ runs.flatten.length ≤ n * chunk := by
  rw [after, Progress.isFinished_after, ← List.length_eq_zero_iff, length_flatten_runsAfter]
  omega

/-- The picks of a piece come after those of the pieces before. -/
theorem picks_succ_mul (n : Nat) :
    picks m.cmp .atCapacity ((n + 1) * chunk) runs =
      picks m.cmp .atCapacity (n * chunk) runs ++ piecePicks m runs chunk n := by
  rw [Nat.succ_mul, picks_add, piecePicks]

/-- The picks of a piece stand where the pieces before end, unless these are all. -/
theorem piecePicks_eq {n : Nat} (h : n * chunk ≤ runs.flatten.length) :
    piecePicks m runs chunk n =
      ((picks m.cmp .atCapacity runs.flatten.length runs).drop (n * chunk)).take chunk := by
  have hbefore : (picks m.cmp .atCapacity (n * chunk) runs).length = n * chunk := by
    rw [length_picks, Nat.min_eq_left h]
  have hpieces : (picks m.cmp .atCapacity runs.flatten.length runs).take ((n + 1) * chunk) =
      picks m.cmp .atCapacity (n * chunk) runs ++ piecePicks m runs chunk n := by
    rw [← picks_eq_take, picks_succ_mul]
  have hdrop := congrArg (List.drop (n * chunk)) hpieces
  rw [List.drop_left' hbefore, List.drop_take, Nat.succ_mul, Nat.add_sub_cancel_left] at hdrop
  exact hdrop.symm

/-- At the end, one more piece would be empty. -/
theorem after_succ_of_le {n : Nat} (h : runs.flatten.length ≤ n * chunk) :
    after m runs chunk (n + 1) = after m runs chunk n := by
  have hnothing : piecePicks m runs chunk n = [] := by
    rw [piecePicks, ← List.length_eq_zero_iff, length_picks, length_flatten_runsAfter]
    omega
  rw [after, picks_succ_mul, hnothing, List.append_nil, after]

theorem advance_after (n : Nat) :
    (after m runs chunk n).progress.advance
        (Tally.ofPicks runs.length (piecePicks m runs chunk n)) =
      .ok (after m runs chunk (n + 1)).progress := by
  rw [after, after, picks_succ_mul]
  refine Progress.advance_after ?_
  intro i
  rw [← length_valuesFrom]
  exact (valuesFrom_isPrefix .atCapacity chunk _ i).length_le

variable (htwo : 2 ≤ runs.length) (hfan : runs.length ≤ m.fanIn.count) (hchunk : 0 < chunk)
include htwo hfan hchunk

/-- The merge of a piece, from what the pieces before have left. -/
theorem merge_after (n : Nat) :
    m.merge ((after m runs chunk n).progress.remainingRuns runs) chunk true =
      .ok ⟨(piecePicks m runs chunk n).map Pick.value,
        some (Tally.ofPicks runs.length (piecePicks m runs chunk n))⟩ := by
  rw [after, Progress.remainingRuns_after,
    merge_eq_ok (by simpa using htwo) (by simpa using hfan) hchunk, RunMerger.tallyIf,
    length_runsAfter]
  rfl

theorem proceeds_after (n : Nat) : (after m runs chunk n).Proceeds :=
  ⟨_, _, _, merge_after htwo hfan hchunk n, rfl, advance_after n⟩

/-- **A request gives the next piece, unless everything has been put out.** -/
theorem next?_after (n : Nat) :
    (after m runs chunk n).next? =
      if runs.flatten.length ≤ n * chunk then
        none
      else
        some ((piecePicks m runs chunk n).map Pick.value, after m runs chunk (n + 1)) := by
  rw [next?]
  by_cases hend : runs.flatten.length ≤ n * chunk
  · rw [if_pos ((isFinished_after n).2 hend), if_pos hend]
  · have hmerge : (after m runs chunk n).merger.merge
        ((after m runs chunk n).progress.remainingRuns (after m runs chunk n).runs)
        (after m runs chunk n).chunk true =
          .ok ⟨(piecePicks m runs chunk n).map Pick.value,
            some (Tally.ofPicks runs.length (piecePicks m runs chunk n))⟩ :=
      merge_after htwo hfan hchunk n
    rw [if_neg (mt (isFinished_after n).1 hend), if_neg hend, hmerge]
    dsimp only
    rw [advance_after]
    rfl

/-- **Requests lead from piece to piece, and no further than the end.** -/
theorem asked_after (n : Nat) : (after m runs chunk 0).asked n = after m runs chunk n := by
  induction n with
  | zero => rfl
  | succ n ih =>
      rw [asked, ih, next?_after htwo hfan hchunk]
      by_cases hend : runs.flatten.length ≤ n * chunk
      · rw [if_pos hend]
        exact (after_succ_of_le hend).symm
      · rw [if_neg hend]

/-- **The answers are the chunks of what one merge of the runs puts out, and then none.** -/
theorem answer_after (n : Nat) :
    (after m runs chunk 0).answer n =
      (chunks chunk
        ((picks m.cmp .atCapacity runs.flatten.length runs).map Pick.value))[n]? := by
  rw [answer, asked_after htwo hfan hchunk, next?_after htwo hfan hchunk, getElem?_chunks hchunk,
    List.length_map, length_picks, Nat.min_self, Nat.mul_comm chunk]
  by_cases hend : runs.flatten.length ≤ n * chunk
  · rw [if_pos hend, if_neg (Nat.not_lt.2 hend)]
    rfl
  · rw [if_neg hend, if_pos (Nat.not_le.1 hend), Option.map_some,
      piecePicks_eq (Nat.not_le.1 hend).le, List.map_take, List.map_drop]

end Requests

end MergeStream

/-- The first pieces of what a merge puts out are what it puts out to their length. -/
theorem flatten_take_chunks {cmp : Comparator α} {chunk : Nat} (hchunk : 0 < chunk)
    (runs : List (List α)) (n : Nat) :
    ((chunks chunk ((picks cmp .atCapacity runs.flatten.length runs).map Pick.value)).take
      n).flatten = (picks cmp .atCapacity (n * chunk) runs).map Pick.value := by
  rw [take_chunks hchunk, flatten_chunks hchunk, ← List.map_take, Nat.mul_comm chunk,
    ← picks_eq_take]

/--
**A stream answers with pieces of the one merge of its runs until all has been put out, and with
none from then on.** The pieces are as many as the whole needs, full but for the last, and none of
them is empty. After some of them the stream has come as far as one merge to their length; at the
end each run has been consumed to its own. Nothing inside a request is ever refused.
-/
theorem stream_pieces
    (m : RunMerger α)
    {runs : List (List α)}
    (htwo : 2 ≤ runs.length)
    (hfan : runs.length ≤ m.fanIn.count)
    {chunk : Nat}
    (hchunk : 1 ≤ chunk) :
    ∃ (s : MergeStream α) (pieces : List (List α)),
      m.stream runs chunk = .ok s ∧
      (∀ n, s.answer n = pieces[n]?) ∧
      pieces.length = (runs.flatten.length + chunk - 1) / chunk ∧
      (∀ piece ∈ pieces.dropLast, piece.length = chunk) ∧
      (∀ piece ∈ pieces, 1 ≤ piece.length ∧ piece.length ≤ chunk) ∧
      (∀ n, 1 ≤ n → ∃ tally,
        m.merge runs (n * chunk) true = .ok ⟨(pieces.take n).flatten, some tally⟩ ∧
        (s.asked n).progress.offsets = tally.counts) ∧
      (∀ n, pieces.length ≤ n →
        (s.asked n).progress.offsets = runs.map List.length ∧
        (s.asked n).progress.isFinished = true) ∧
      (∀ capacity, 1 ≤ capacity → runs.flatten.length ≤ capacity → ∃ tally,
        m.merge runs capacity true = .ok ⟨pieces.flatten, some tally⟩) ∧
      ∀ n, (s.asked n).progress.isFinished = false → (s.asked n).Proceeds := by
  have hslots : runs.length ≤ slotCount := hfan.trans m.fanIn.count_le_slotCount
  have hasked : ∀ n, (MergeStream.after m runs chunk 0).asked n =
      MergeStream.after m runs chunk n := MergeStream.asked_after htwo hfan hchunk
  have hlength : ((picks m.cmp .atCapacity runs.flatten.length runs).map Pick.value).length =
      runs.flatten.length := by
    rw [List.length_map, length_picks, Nat.min_self]
  refine ⟨MergeStream.after m runs chunk 0,
    chunks chunk ((picks m.cmp .atCapacity runs.flatten.length runs).map Pick.value),
    ?_, MergeStream.answer_after htwo hfan hchunk, ?_, ?_, ?_, ?_, ?_, ?_, ?_⟩
  · rw [RunMerger.stream, accept_eq_ok htwo hfan hchunk, Progress.ofRuns_eq_ok hslots,
      MergeStream.after, Nat.zero_mul, picks_zero]
  · rw [length_chunks hchunk, hlength]
  · intro piece hpiece
    exact length_of_mem_dropLast_chunks hchunk hpiece
  · intro piece hpiece
    exact length_of_mem_chunks hchunk hpiece
  · intro n hn
    refine ⟨Tally.ofPicks runs.length (picks m.cmp .atCapacity (n * chunk) runs), ?_, ?_⟩
    · rw [flatten_take_chunks hchunk, merge_eq_ok htwo hfan (Nat.mul_pos hn hchunk)]
      rfl
    · rw [hasked]
      exact Progress.offsets_after
  · intro n hn
    have hall : runs.flatten.length ≤ n * chunk := by
      rw [length_chunks hchunk, hlength, Nat.div_le_iff_le_mul_add_pred hchunk,
        Nat.mul_comm] at hn
      omega
    rw [hasked]
    have hfinished : (MergeStream.after m runs chunk n).progress.isFinished = true :=
      (MergeStream.isFinished_after n).2 hall
    exact ⟨Progress.offsets_after_of_runsAfter_eq_nil (Progress.isFinished_after.1 hfinished),
      hfinished⟩
  · intro capacity hcapacity hall
    refine ⟨Tally.ofPicks runs.length (picks m.cmp .atCapacity capacity runs), ?_⟩
    rw [flatten_chunks hchunk, merge_eq_ok htwo hfan hcapacity, picks_eq_take capacity,
      List.take_of_length_le (by rw [length_picks]; omega)]
    rfl
  · intro n _
    rw [hasked]
    exact MergeStream.proceeds_after htwo hfan hchunk n

theorem stream_of_lawless_runs :
    ∃ s,
      (RunMerger.mk Comparator.alwaysBefore .three).stream [[4, 2, 5], [], [3, 6]] 2 = .ok s ∧
      s.answer 0 = some [3, 6] ∧
      s.answer 1 = some [4, 2] ∧
      s.answer 2 = some [5] ∧
      (∀ n, 3 ≤ n → s.answer n = none) ∧
      (s.asked 1).progress.offsets = [0, 0, 2] ∧
      ∀ n, 3 ≤ n → (s.asked n).progress.offsets = [3, 0, 2] := by
  obtain ⟨s, pieces, hstream, hanswer, hcount, -, -, -, hend, -, -⟩ :=
    stream_pieces (RunMerger.mk Comparator.alwaysBefore .three)
      (show 2 ≤ [[4, 2, 5], [], [3, 6]].length by decide) (by decide) (show 1 ≤ 2 by decide)
  have hstart : (RunMerger.mk Comparator.alwaysBefore .three).stream [[4, 2, 5], [], [3, 6]] 2 =
      .ok ⟨RunMerger.mk Comparator.alwaysBefore .three, [[4, 2, 5], [], [3, 6]],
        ⟨[⟨3, 0⟩, ⟨0, 0⟩, ⟨2, 0⟩]⟩, 2⟩ := rfl
  have hthree : pieces.length = 3 := hcount
  have hnone : ∀ n, 3 ≤ n → s.answer n = none := by
    intro n hn
    rw [hanswer, List.getElem?_eq_none (by omega)]
  have hoffsets : ∀ n, 3 ≤ n → (s.asked n).progress.offsets = [3, 0, 2] := by
    intro n hn
    exact (hend n (by omega)).1
  rw [hstart] at hstream
  obtain rfl := Except.ok.inj hstream
  exact ⟨_, hstart, rfl, rfl, rfl, hnone, rfl, hoffsets⟩

end KWayMerge
