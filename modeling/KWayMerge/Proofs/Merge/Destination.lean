import KWayMerge.Proofs.Merge.Restart
import KWayMerge.Proofs.Merge.Verified

/-!
# Merging into a destination

A merge is one loop over cursors, which gives each element that it takes to the one who asked for
the merge. That may be a list that grows, or a destination of a fixed length with a counter of
what has been written. The loop does not look at what becomes of the elements, so both receive the
same ones. It takes no more of them than its capacity, which for a destination is the length, so
the counter never leaves it, and what lies behind the counter in the end has not been touched.

**Results.**
* `mergeLoop_eq`: the loop gives out the picks, one after another, and its cursors count them.
* `foldlM_write?`: elements that fit are written, and all else stays.
* `mergePushing_eq` and `mergeWriting_eq`: the two ways of merging are `merge` and `mergeOver`.
* `mergeOver_is_merge_in_place`: how the two of them agree.
-/

namespace KWayMerge

universe u v

variable {α : Type u} {σ : Type v}

/-! ### The loop of a merge -/

/-- What lies behind the cursors in their runs. -/
def behind (runs : List (List α)) (cursors : List Nat) : List (List α) :=
  List.zipWith List.drop cursors runs

/--
Gives at most `capacity` further elements from behind the cursors to `emit`, one after another:
the state in which `emit` is left, and the cursors. There is no result if `emit` has no place for
an element.
-/
def mergeLoop (cmp : Comparator α) (stop : StopRule) (emit : σ → α → Option σ)
    (runs : List (List α)) : (capacity : Nat) → (cursors : List Nat) → σ → Option (σ × List Nat)
  | 0, cursors, state => some (state, cursors)
  | capacity + 1, cursors, state =>
      match front? cmp (behind runs cursors) with
      | none => some (state, cursors)
      | some pick =>
          match emit state pick.value with
          | none => none
          | some next =>
              let moved := cursors.modify pick.run (· + 1)
              if stop.suspends (behind runs moved) pick.run then
                some (next, moved)
              else
                mergeLoop cmp stop emit runs capacity moved next

/-- The cursors after further picks. -/
def cursorsAfter (cursors : List Nat) (taken : List (Pick α)) : List Nat :=
  cursors.mapIdx fun i n => n + taken.countP fun pick => pick.run == i

theorem cursorsAfter_nil (cursors : List Nat) :
    cursorsAfter cursors ([] : List (Pick α)) = cursors := by
  simp [cursorsAfter, List.mapIdx_eq_zipIdx_map, List.zipIdx_map_fst]

theorem cursorsAfter_cons (cursors : List Nat) (pick : Pick α) (taken : List (Pick α)) :
    cursorsAfter cursors (pick :: taken) =
      cursorsAfter (cursors.modify pick.run (· + 1)) taken := by
  refine List.ext_getElem (by simp [cursorsAfter]) ?_
  intro i hi hi'
  simp only [cursorsAfter, List.getElem_mapIdx, List.getElem_modify, List.countP_cons]
  by_cases h : pick.run = i
  · simp only [h, beq_self_eq_true, if_true]
    omega
  · simp [h]

/-- A cursor that moves leaves a head behind it. -/
theorem behind_modify (runs : List (List α)) (cursors : List Nat) (i : Nat) :
    behind runs (cursors.modify i (· + 1)) = dropHead (behind runs cursors) i := by
  refine List.ext_getElem (by simp [behind, dropHead]) ?_
  intro j hj hj'
  simp only [behind, dropHead, List.getElem_zipWith, List.getElem_modify]
  split
  · rw [List.tail_drop]
  · rfl

/-- **The loop gives out the picks, whatever becomes of them, and its cursors count them.** -/
theorem mergeLoop_eq (cmp : Comparator α) (stop : StopRule) (emit : σ → α → Option σ)
    (runs : List (List α)) (capacity : Nat) (cursors : List Nat) (state : σ) :
    mergeLoop cmp stop emit runs capacity cursors state =
      (((picks cmp stop capacity (behind runs cursors)).map Pick.value).foldlM emit state).map
        fun last =>
          (last, cursorsAfter cursors (picks cmp stop capacity (behind runs cursors))) := by
  induction capacity generalizing cursors state with
  | zero => simp [mergeLoop, cursorsAfter_nil]
  | succ capacity ih =>
      rw [mergeLoop, picks_succ]
      cases front? cmp (behind runs cursors) with
      | none => simp [cursorsAfter_nil]
      | some pick =>
          dsimp only
          rw [List.map_cons, List.foldlM_cons, cursorsAfter_cons, ← behind_modify]
          cases emit state pick.value with
          | none => rfl
          | some next =>
              dsimp only
              split
              · simp [cursorsAfter_nil]
              · exact ih _ _

section Start

variable (runs : List (List α))

/-- The cursors of a merge that has not begun. -/
def firstCursors : List Nat :=
  List.replicate runs.length 0

theorem behind_firstCursors : behind runs (firstCursors runs) = runs := by
  refine List.ext_getElem (by simp [behind, firstCursors]) ?_
  intro i hi hi'
  simp [behind, firstCursors]

theorem cursorsAfter_firstCursors (taken : List (Pick α)) :
    Tally.mk (cursorsAfter (firstCursors runs) taken) = Tally.ofPicks runs.length taken := by
  rw [Tally.ofPicks, Tally.mk.injEq]
  refine List.ext_getElem (by simp [cursorsAfter, firstCursors]) ?_
  intro i hi hi'
  simp [cursorsAfter, firstCursors]

end Start

/-! ### Putting out to a list and to a destination -/

/-- Puts an element behind those that are there. -/
def push? (output : List α) (x : α) : Option (List α) :=
  some (output ++ [x])

/-- A destination, with the number of elements that have been written to it. -/
structure Writer (α : Type u) where
  dst : List α
  produced : Nat

/-- Writes at the counter, which has to be a place of the destination. -/
def Writer.write? (w : Writer α) (x : α) : Option (Writer α) :=
  if w.produced < w.dst.length then
    some ⟨w.dst.set w.produced x, w.produced + 1⟩
  else
    none

theorem foldlM_push? (xs output : List α) : xs.foldlM push? output = some (output ++ xs) := by
  induction xs generalizing output with
  | nil => simp
  | cons x xs ih =>
      rw [List.foldlM_cons, push?, Option.bind_eq_bind, Option.bind_some, ih, List.append_assoc,
        List.singleton_append]

/-- **Elements that fit are written behind those that have been, and nothing else changes.** -/
theorem foldlM_write? {xs : List α} (done : List α) {rest : List α} (h : xs.length ≤ rest.length) :
    xs.foldlM Writer.write? ⟨done ++ rest, done.length⟩ =
      some ⟨done ++ xs ++ rest.drop xs.length, done.length + xs.length⟩ := by
  -- each element replaces the first that has not been overwritten
  induction xs generalizing done rest with
  | nil => simp
  | cons x xs ih =>
      cases rest with
      | nil => simp at h
      | cons y rest =>
          have hplace : done.length < (done ++ y :: rest).length := by simp
          have hset : (done ++ y :: rest).set done.length x = (done ++ [x]) ++ rest := by
            simp
          have hcount : done.length + 1 = (done ++ [x]).length := by simp
          rw [List.foldlM_cons, Writer.write?, if_pos hplace, Option.bind_eq_bind, Option.bind_some,
            hset, hcount, ih (done ++ [x]) (Nat.le_of_succ_le_succ h)]
          simp [Nat.add_assoc, Nat.add_comm 1]

namespace RunMerger

variable (m : RunMerger α)

/-- Merges by a loop that puts the elements into a list. -/
def mergePushing (runs : List (List α)) (capacity : Nat) (track : Bool) :
    Option (Except Fault (Merged α)) :=
  match m.accept runs.length capacity with
  | .error fault => some (.error fault)
  | .ok () => do
      let (output, cursors) ←
        mergeLoop m.cmp .atCapacity push? runs capacity (firstCursors runs) []
      return .ok ⟨output, if track then some ⟨cursors⟩ else none⟩

/--
Merges by a loop that writes the elements into a destination: the result, and the destination
after the call.
-/
def mergeWriting (runs : List (List α)) (track : Bool) (dst : List α) :
    Option (Except Fault Filled × List α) :=
  match m.accept runs.length dst.length with
  | .error fault => some (.error fault, dst)
  | .ok () => do
      let (writer, cursors) ←
        mergeLoop m.cmp .atCapacity Writer.write? runs dst.length (firstCursors runs) ⟨dst, 0⟩
      return (.ok ⟨writer.produced, if track then some ⟨cursors⟩ else none⟩, writer.dst)

end RunMerger

section Merges

variable (m : RunMerger α) (runs : List (List α)) (track : Bool)

theorem tallyIf_eq (taken : List (Pick α)) :
    (if track then some ⟨cursorsAfter (firstCursors runs) taken⟩ else none) =
      RunMerger.tallyIf track runs taken := by
  rw [RunMerger.tallyIf, cursorsAfter_firstCursors]

/-- **A merge that puts its elements into a list always has a place for them.** -/
theorem mergePushing_eq (capacity : Nat) :
    m.mergePushing runs capacity track = some (m.merge runs capacity track) := by
  rw [RunMerger.mergePushing, RunMerger.merge]
  cases m.accept runs.length capacity with
  | error fault => rfl
  | ok =>
      dsimp only
      rw [mergeLoop_eq, behind_firstCursors, foldlM_push?, Option.map_some, Option.bind_eq_bind,
        Option.bind_some, tallyIf_eq, List.nil_append]
      rfl

theorem length_values_le (capacity : Nat) :
    ((picks m.cmp .atCapacity capacity runs).map Pick.value).length ≤ capacity := by
  rw [List.length_map, length_picks]
  exact Nat.min_le_left _ _

/-- **A merge that writes its elements into a destination never writes beyond it.** -/
theorem mergeWriting_eq (dst : List α) :
    m.mergeWriting runs track dst = some (m.mergeOver runs track dst) := by
  rw [RunMerger.mergeWriting, RunMerger.mergeOver]
  cases m.accept runs.length dst.length with
  | error fault => rfl
  | ok =>
      have hfits := length_values_le m runs dst.length
      have hwritten := foldlM_write? [] hfits
      rw [List.nil_append, List.nil_append, List.length_nil, Nat.zero_add] at hwritten
      dsimp only
      rw [mergeLoop_eq, behind_firstCursors, hwritten, Option.map_some, Option.bind_eq_bind,
        Option.bind_some, tallyIf_eq, overwrite, List.take_of_length_le hfits, List.length_map]
      rfl

/-- **A merge into a destination overwrites it with what a merge puts out.** -/
theorem mergeOver_eq_of_merge (dst : List α) :
    m.mergeOver runs track dst =
      match m.merge runs dst.length track with
      | .error fault => (.error fault, dst)
      | .ok merged => (.ok ⟨merged.output.length, merged.tally⟩, overwrite merged.output dst) := by
  rw [RunMerger.mergeOver, RunMerger.merge]
  cases m.accept runs.length dst.length with
  | error fault => rfl
  | ok =>
      dsimp only
      rw [List.length_map]

variable {m runs track}

theorem length_output_le {capacity : Nat} {merged : Merged α}
    (h : m.merge runs capacity track = .ok merged) : merged.output.length ≤ capacity := by
  rw [merge_eq_map] at h
  rw [eq_of_map_accept_eq_ok h]
  exact length_values_le m runs capacity

end Merges

/--
**A merge into a destination is the merge to its length, put in its place.** Both are refused with
the same fault, and then the destination stays as it was. Otherwise the one produces as many
elements as the other puts out, with the same tally; they stand at the front of the destination,
and what is behind them has not changed. Both are one loop, which leaves each element with a list
or writes it at a counter, and there always is a place where the counter is.
-/
theorem mergeOver_is_merge_in_place
    (m : RunMerger α)
    (runs : List (List α))
    (track : Bool)
    (dst : List α) :
    (∀ fault, m.merge runs dst.length track = .error fault →
      m.mergeOver runs track dst = (.error fault, dst)) ∧
    (∀ merged, m.merge runs dst.length track = .ok merged →
      ∃ after,
        m.mergeOver runs track dst = (.ok ⟨merged.output.length, merged.tally⟩, after) ∧
        merged.output.length ≤ dst.length ∧
        after.take merged.output.length = merged.output ∧
        after.drop merged.output.length = dst.drop merged.output.length) ∧
    m.mergePushing runs dst.length track = some (m.merge runs dst.length track) ∧
    m.mergeWriting runs track dst = some (m.mergeOver runs track dst) := by
  refine ⟨?_, ?_, mergePushing_eq m runs track dst.length, mergeWriting_eq m runs track dst⟩
  · intro fault h
    rw [mergeOver_eq_of_merge, h]
  · intro merged h
    have hfits := length_output_le h
    refine ⟨overwrite merged.output dst, ?_, hfits, ?_, ?_⟩
    · rw [mergeOver_eq_of_merge, h]
    · rw [overwrite, List.take_of_length_le hfits, List.take_left]
    · rw [overwrite, List.take_of_length_le hfits, List.drop_left]

/-- A destination that is longer than the runs, one without places, and runs too many. -/
theorem mergeOver_of_lawless_runs_in_place :
    (RunMerger.mk Comparator.alwaysBefore .two).mergeOver [[4, 2], [3]] true [7, 8, 9, 6, 5] =
      (.ok ⟨3, some ⟨[2, 1]⟩⟩, [3, 4, 2, 6, 5]) ∧
    (RunMerger.mk Comparator.alwaysBefore .two).mergeOver [[4, 2], [3]] true [] =
      (.error .noCapacity, []) ∧
    (RunMerger.mk Comparator.alwaysBefore .two).mergeOver [[4], [3], [2]] false [7, 8] =
      (.error (.runCount 3 2), [7, 8]) := by
  obtain ⟨-, hmerged, -⟩ := mergeOver_is_merge_in_place
    (RunMerger.mk Comparator.alwaysBefore .two) [[4, 2], [3]] true [7, 8, 9, 6, 5]
  obtain ⟨hempty, -⟩ := mergeOver_is_merge_in_place
    (RunMerger.mk Comparator.alwaysBefore .two) [[4, 2], [3]] true []
  obtain ⟨hmany, -⟩ := mergeOver_is_merge_in_place
    (RunMerger.mk Comparator.alwaysBefore .two) [[4], [3], [2]] false [7, 8]
  refine ⟨?_, hempty .noCapacity rfl, hmany (.runCount 3 2) rfl⟩
  obtain ⟨after, hrun, -, hfront, hrest⟩ := hmerged ⟨[3, 4, 2], some ⟨[2, 1]⟩⟩ rfl
  have hafter : after = [3, 4, 2] ++ [6, 5] := by
    rw [← List.take_append_drop 3 after]
    exact congrArg₂ (· ++ ·) hfront hrest
  rw [hrun, hafter]
  rfl

end KWayMerge
