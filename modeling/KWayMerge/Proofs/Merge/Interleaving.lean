import KWayMerge.Proofs.Merge.Progress
import Mathlib.Data.List.FinRange

/-!
# A merge interleaves the fronts of its runs

Whatever the comparator answers, and however it contradicts itself from one step to the next, each
element that a merge puts out is the next of some run. So the positions of the output can be given
to the runs, and the positions of a run, read in order, spell the front of it that the tally
counts. Nothing is asked of the order in the runs either.

**Results.**
* `exists_source_of_picks`: picks give their positions to the runs.
* `sumCounts_slots`: the slots of a tally sum to its total.
* `merge_interleaves_fronts`: the length of the output, the tally, and the positions of each run.
-/

namespace KWayMerge

universe u

variable {α : Type u}

/-- The elements at the positions that are given to part `i`, in order. -/
def readPart {n : Nat} (xs : List α) (source : Fin xs.length → Fin n) (i : Fin n) : List α :=
  ((List.finRange xs.length).filter fun place => source place = i).map fun place => xs[place]

/-- **Picks give the positions of their values to the runs that they come from.** -/
theorem exists_source_of_picks {n : Nat} {taken : List (Pick α)}
    (htaken : ∀ pick ∈ taken, pick.run < n) :
    ∃ source : Fin (taken.map Pick.value).length → Fin n,
      ∀ i, readPart (taken.map Pick.value) source i = valuesFrom i taken := by
  have hlength : (taken.map Pick.value).length = taken.length := List.length_map _
  refine ⟨fun place => ⟨taken[place].run, htaken _ (List.getElem_mem _)⟩, ?_⟩
  intro i
  have hplaces : (List.finRange (taken.map Pick.value).length).map (fun place => taken[place]) =
      taken := by
    refine List.ext_getElem (by simp) ?_
    intro place hplace hplace'
    simp
  conv => rhs; rw [← hplaces]
  rw [valuesFrom, readPart, List.filter_map, List.map_map]
  simp [Function.comp_def, Fin.ext_iff, beq_eq_decide]

namespace Tally

/-- The slots beyond the runs are there and count nothing. -/
theorem slots_eq {t : Tally} (hruns : t.runs ≤ slotCount) :
    t.slots = t.counts ++ List.replicate (slotCount - t.runs) 0 := by
  rw [runs] at hruns
  refine List.ext_getElem (by simp [slots, runs, hruns]) ?_
  intro i hi hi'
  rw [List.getElem_append]
  split
  · next hlt => simp [slots, slot, hlt]
  · next hge => simp [slots, slot, hge]

theorem sumCounts_slots {t : Tally} (hruns : t.runs ≤ slotCount) :
    sumCounts t.slots = t.total := by
  rw [slots_eq hruns, sumCounts_append, sumCounts_replicate, Nat.mul_zero, Nat.add_zero, total]

end Tally

/--
**A merge interleaves fronts of its runs, under any comparator and whatever the runs hold.** It
puts out as many elements as it may or as there are. Its tally counts no more of a run than the run
holds, nothing in a slot without a run, and as much in all as is put out. The positions of the
output can be given to the runs so that those of each run spell the front of it that is counted.
-/
theorem merge_interleaves_fronts
    (m : RunMerger α)
    {runs : List (List α)}
    (htwo : 2 ≤ runs.length)
    (hfan : runs.length ≤ m.fanIn.count)
    {capacity : Nat}
    (hcapacity : 1 ≤ capacity) :
    ∃ output tally,
      (∀ track, m.merge runs capacity track =
        .ok ⟨output, if track then some tally else none⟩) ∧
      output.length = min capacity runs.flatten.length ∧
      tally.runs = runs.length ∧
      (∀ i, tally.slot i ≤ (runs.getD i []).length) ∧
      (∀ i, runs.length ≤ i → tally.slot i = 0) ∧
      tally.total = output.length ∧
      sumCounts tally.slots = output.length ∧
      ∃ source : Fin output.length → Fin runs.length,
        ∀ i, readPart output source i = runs[i].take (tally.slot i) := by
  have hruns : ∀ pick ∈ picks m.cmp .atCapacity capacity runs, pick.run < runs.length :=
    fun pick hpick => run_lt_of_mem_picks hpick
  have hslots : runs.length ≤ slotCount := hfan.trans m.fanIn.count_le_slotCount
  have htotal : (Tally.ofPicks runs.length (picks m.cmp .atCapacity capacity runs)).total =
      ((picks m.cmp .atCapacity capacity runs).map Pick.value).length := by
    rw [Tally.total_ofPicks_of_forall_lt hruns, List.length_map]
  obtain ⟨source, hsource⟩ := exists_source_of_picks hruns
  refine ⟨_, Tally.ofPicks runs.length (picks m.cmp .atCapacity capacity runs),
    fun track => merge_eq_ok htwo hfan hcapacity track, ?_, Tally.runs_ofPicks _ _, ?_, ?_, htotal,
    ?_, source, ?_⟩
  · rw [List.length_map, length_picks]
  · intro i
    rw [slot_ofPicks_picks, ← length_valuesFrom]
    exact (valuesFrom_isPrefix .atCapacity capacity runs i).length_le
  · intro i hi
    rw [Tally.slot_ofPicks, if_neg (by omega)]
  · rw [Tally.sumCounts_slots (by rwa [Tally.runs_ofPicks]), htotal]
  · intro i
    rw [hsource, ← take_slot_ofPicks, List.getD_eq_getElem _ _ i.isLt, Fin.getElem_fin]

theorem merge_interleaves_lawless_fronts :
    ∃ output tally,
      (RunMerger.mk Comparator.alwaysBefore .three).merge [[4, 2, 5], [], [3, 6]] 3 true =
        .ok ⟨output, some tally⟩ ∧
      output = [3, 6, 4] ∧
      tally.slots = [1, 0, 2, 0] ∧
      sumCounts tally.slots = output.length ∧
      ∃ source : Fin output.length → Fin 3,
        readPart output source 0 = [4] ∧
        readPart output source 1 = [] ∧
        readPart output source 2 = [3, 6] := by
  obtain ⟨output, tally, hmerge, -, -, -, -, -, hsum, source, hsource⟩ :=
    merge_interleaves_fronts (RunMerger.mk Comparator.alwaysBefore .three)
      (show 2 ≤ [[4, 2, 5], [], [3, 6]].length by decide) (by decide) (show 1 ≤ 3 by decide)
  have hrun : (RunMerger.mk Comparator.alwaysBefore .three).merge [[4, 2, 5], [], [3, 6]] 3 true =
      .ok ⟨[3, 6, 4], some ⟨[1, 0, 2]⟩⟩ := rfl
  have htracked := hmerge true
  rw [hrun] at htracked
  obtain ⟨rfl, htally⟩ := Merged.mk.inj (Except.ok.inj htracked)
  obtain rfl := Option.some.inj htally
  exact ⟨_, _, hrun, rfl, rfl, hsum, source, hsource 0, hsource 1, hsource 2⟩

end KWayMerge
