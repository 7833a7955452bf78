import KWayMerge.Merge.Progress
import KWayMerge.Proofs.Merge.Restart

/-!
# Progress and picks

The progress that the caller of merges keeps is the record of some picks: each run is as far on
as there are picks from it. The tails that it gives for the next merge are what remains after
these picks, and advancing it by the tally of that merge records the picks of both. Nothing in
this asks which picks were taken, or in which order.

**Results.**
* `remainingRuns_after`: the tails are what remains.
* `advance_after`: a tally of picks from what remains is never refused, and is added.
* `sumCounts_offsets_after`: as much has been consumed as has been taken.
-/

namespace KWayMerge

universe u

variable {α : Type u}

namespace Tally

/-- The picks from the first runs are counted once each. -/
theorem total_ofPicks (runs : Nat) (taken : List (Pick α)) :
    (ofPicks runs taken).total = taken.countP fun pick => pick.run < runs := by
  rw [total, ofPicks]
  induction runs with
  | zero => simp
  | succ runs ih =>
      rw [List.range_succ, List.map_append, sumCounts_append, ih, List.map_singleton,
        sumCounts_cons, sumCounts_nil, Nat.add_zero]
      clear ih
      induction taken with
      | nil => rfl
      | cons pick taken ih =>
          simp only [List.countP_cons, decide_eq_true_eq, beq_iff_eq] at ih ⊢
          rcases Nat.lt_trichotomy pick.run runs with hlt | heq | hgt
          · rw [if_pos hlt, if_neg (by omega), if_pos (by omega)]
            omega
          · rw [if_neg (by omega), if_pos heq, if_pos (by omega)]
            omega
          · rw [if_neg (by omega), if_neg (by omega), if_neg (by omega)]
            omega

/-- Picks from the runs that are counted are all counted. -/
theorem total_ofPicks_of_forall_lt {runs : Nat} {taken : List (Pick α)}
    (htaken : ∀ pick ∈ taken, pick.run < runs) : (ofPicks runs taken).total = taken.length := by
  rw [total_ofPicks, List.countP_eq_length]
  intro pick hpick
  simpa using htaken pick hpick

end Tally

namespace Progress

/-- The progress through the runs after these picks. -/
def after (runs : List (List α)) (taken : List (Pick α)) : Progress :=
  ⟨runs.mapIdx fun i run => ⟨run.length, taken.countP fun pick => pick.run == i⟩⟩

variable {runs : List (List α)} {taken : List (Pick α)}

theorem ofRuns_eq_ok (hslots : runs.length ≤ slotCount) : ofRuns runs = .ok (after runs []) := by
  rw [ofRuns, ofLengths, List.length_map, if_neg (by omega), after]
  congr 2
  refine List.ext_getElem (by simp) ?_
  intro i hi hi'
  simp

theorem offsets_after : (after runs taken).offsets = (Tally.ofPicks runs.length taken).counts := by
  refine List.ext_getElem (by simp [offsets, after, Tally.ofPicks]) ?_
  intro i hi hi'
  simp [offsets, after, Tally.ofPicks]

theorem remainingRuns_after : (after runs taken).remainingRuns runs = runsAfter runs taken := by
  refine List.ext_getElem (by simp [remainingRuns, offsets, after]) ?_
  intro i hi hi'
  simp [remainingRuns, offsets, after, runsAfter]

/-- As much has been consumed as has been taken. -/
theorem sumCounts_offsets_after (htaken : ∀ pick ∈ taken, pick.run < runs.length) :
    sumCounts (after runs taken).offsets = taken.length := by
  rw [offsets_after, ← Tally.total_ofPicks_of_forall_lt htaken, Tally.total]

theorem remaining_position_after (i : Nat) :
    ((after runs taken).position i).remaining = ((runsAfter runs taken).getD i []).length := by
  rw [getD_runsAfter, List.length_drop]
  simp only [position, after, List.getD_eq_getElem?_getD, List.getElem?_mapIdx]
  cases runs[i]? with
  | none => simp [RunPosition.absent, RunPosition.remaining]
  | some run => rfl

/-- **A tally of picks from what remains is never refused, and is added.** -/
theorem advance_after {more : List (Pick α)}
    (hmore : ∀ i, (more.countP fun pick => pick.run == i) ≤
      ((runsAfter runs taken).getD i []).length) :
    (after runs taken).advance (Tally.ofPicks runs.length more) =
      .ok (after runs (taken ++ more)) := by
  have hfits : (after runs taken).firstOverrun? (Tally.ofPicks runs.length more) = none := by
    rw [firstOverrun?, List.find?_eq_none]
    intro i _
    rw [remaining_position_after, Tally.slot_ofPicks, decide_eq_true_eq, Nat.not_lt]
    split
    · exact hmore i
    · exact Nat.zero_le _
  rw [advance, hfits]
  dsimp only
  congr 2
  refine List.ext_getElem (by simp [after]) ?_
  intro i hi hi'
  have hlt : i < runs.length := by simpa [after] using hi'
  simp [after, Tally.slot_ofPicks, hlt]

/-- The end has been reached when nothing remains of the runs. -/
theorem isFinished_after :
    (after runs taken).isFinished = true ↔ (runsAfter runs taken).flatten = [] := by
  rw [isFinished, List.all_eq_true, List.flatten_eq_nil_iff]
  simp only [after, runsAfter, List.mem_mapIdx, RunPosition.isExhausted, beq_iff_eq]
  constructor
  · rintro h _ ⟨i, hi, rfl⟩
    have hnothing := h _ ⟨i, hi, rfl⟩
    rw [List.drop_eq_nil_iff]
    exact Nat.le_of_sub_eq_zero hnothing
  · rintro h _ ⟨i, hi, rfl⟩
    have hnothing := h _ ⟨i, hi, rfl⟩
    rw [List.drop_eq_nil_iff] at hnothing
    exact Nat.sub_eq_zero_of_le hnothing

/-- At the end each run has been consumed to its own. -/
theorem offsets_after_of_runsAfter_eq_nil {cmp : Comparator α} {stop : StopRule} {capacity : Nat}
    (h : (runsAfter runs (picks cmp stop capacity runs)).flatten = []) :
    (after runs (picks cmp stop capacity runs)).offsets = runs.map List.length := by
  refine List.ext_getElem (by simp [offsets, after]) ?_
  intro i hi hi'
  rw [List.length_map] at hi'
  have hrun : (runsAfter runs (picks cmp stop capacity runs)).getD i [] = [] := by
    rw [List.getD_eq_getElem _ _ (by simpa using hi')]
    exact List.flatten_eq_nil_iff.1 h _ (List.getElem_mem _)
  have hprefix : valuesFrom i (picks cmp stop capacity runs) <+: runs.getD i [] :=
    valuesFrom_isPrefix stop capacity runs i
  have hle := hprefix.length_le
  rw [getD_runsAfter, List.getD_eq_getElem _ _ hi', List.drop_eq_nil_iff] at hrun
  rw [length_valuesFrom, List.getD_eq_getElem _ _ hi'] at hle
  simp only [offsets, after, List.getElem_map, List.getElem_mapIdx]
  omega

end Progress
end KWayMerge
