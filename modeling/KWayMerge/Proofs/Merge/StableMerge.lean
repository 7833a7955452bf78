import KWayMerge.Proofs.Merge.HeadMerge

/-!
# Merges of ordered runs are stable sorts

If each run is ordered under a total preorder, the picks of a merge are the first elements of the
stable sort of all runs in a row: of like elements those from lower runs come first, and those
from one run in the order in which they stand there. To say which run an element comes from, the
elements are numbered with their runs before they are sorted.

**Results.**
* `picks_eq_take_stableSort`: the picks are the first of the numbered elements, stably sorted.
* `headMerge_eq_stableSort`: the head merge of ordered blocks is the stable sort of the whole.
* `merge_ordered_runs`: what a tracked merge puts out and what it counts for each run.
-/

namespace KWayMerge

universe u

variable {α : Type u} {cmp : Comparator α}

/-! ### Leading heads of ordered runs -/

section Ordered

variable [Std.TransCmp cmp] {left right : List (List α)} {x : α}

/-- What precedes the heads of ordered runs precedes all their elements. -/
theorem Leads.precedes_of_mem_flatten (h : Leads cmp left x right)
    (hordered : ∀ run ∈ left, cmp.Ordered run) :
    ∀ y ∈ left.flatten, cmp.precedes x y = true := by
  intro y hy
  obtain ⟨run, hrun, hy⟩ := List.mem_flatten.1 hy
  cases run with
  | nil => simp at hy
  | cons head tail =>
      exact Comparator.precedes_of_precedes_of_isLE (h.before head (head_mem_heads hrun))
        (Comparator.isLE_head_of_mem (hordered _ hrun) hy)

/-- What the heads of ordered runs do not precede is preceded by none of their elements. -/
theorem Leads.not_precedes_of_mem_flatten (h : Leads cmp left x right)
    (hordered : ∀ run ∈ right, cmp.Ordered run) :
    ∀ y ∈ right.flatten, cmp.precedes y x = false := by
  intro y hy
  obtain ⟨run, hrun, hy⟩ := List.mem_flatten.1 hy
  cases run with
  | nil => simp at hy
  | cons head tail =>
      have hhead : (cmp x head).isLE = true :=
        Comparator.precedes_eq_false_iff.1 (h.after head (head_mem_heads hrun))
      exact Comparator.precedes_eq_false_iff.2
        (Std.TransCmp.isLE_trans hhead (Comparator.isLE_head_of_mem (hordered _ hrun) hy))

end Ordered

/-! ### Numbered elements -/

/-- The elements of runs in a row, each with the number of its run, counted from `i`. -/
def numberedFrom : Nat → List (List α) → List (Pick α)
  | _, [] => []
  | i, run :: runs => run.map (Pick.mk i) ++ numberedFrom (i + 1) runs

def numbered (runs : List (List α)) : List (Pick α) :=
  numberedFrom 0 runs

/-- Numbered elements compare as their values do. -/
def byValue (cmp : Comparator α) : Comparator (Pick α) :=
  fun a b => cmp a.value b.value

instance [Std.TransCmp cmp] : Std.TransCmp (byValue cmp) :=
  Comparator.transCmp_comap Pick.value

theorem numberedFrom_append (i : Nat) (left right : List (List α)) :
    numberedFrom i (left ++ right) =
      numberedFrom i left ++ numberedFrom (i + left.length) right := by
  induction left generalizing i with
  | nil => rfl
  | cons run left ih =>
      rw [List.cons_append, numberedFrom, ih, numberedFrom, List.length_cons, List.append_assoc]
      congr 3
      omega

theorem map_value_numberedFrom (i : Nat) (runs : List (List α)) :
    (numberedFrom i runs).map Pick.value = runs.flatten := by
  induction runs generalizing i with
  | nil => rfl
  | cons run runs ih => simp [numberedFrom, ih, Function.comp_def]

theorem value_mem_flatten {i : Nat} {runs : List (List α)} {pick : Pick α}
    (h : pick ∈ numberedFrom i runs) : pick.value ∈ runs.flatten := by
  rw [← map_value_numberedFrom i runs]
  exact List.mem_map_of_mem h

theorem length_numbered (runs : List (List α)) : (numbered runs).length = runs.flatten.length := by
  rw [← map_value_numberedFrom 0 runs, List.length_map, numbered]

theorem countP_numberedFrom (runs : List (List α)) (i j : Nat) :
    (numberedFrom i runs).countP (fun pick => pick.run == j) =
      if i ≤ j then (runs.getD (j - i) []).length else 0 := by
  induction runs generalizing i with
  | nil => simp [numberedFrom]
  | cons run runs ih =>
      rw [numberedFrom, List.countP_append, List.countP_map, ih]
      rcases Nat.lt_trichotomy i j with hlt | rfl | hgt
      · have hsub : j - i = j - (i + 1) + 1 := by omega
        have hne : (i == j) = false := by simp; omega
        rw [if_pos (by omega), if_pos (by omega), hsub]
        simp [Function.comp_def, hne]
      · simp [Function.comp_def]
      · have hne : (i == j) = false := by simp; omega
        rw [if_neg (by omega), if_neg (by omega)]
        simp [Function.comp_def, hne]

/-- **The picks of a merge of ordered runs are the first elements of the stable sort.** -/
theorem picks_eq_take_stableSort [Std.TransCmp cmp] (capacity : Nat) {runs : List (List α)}
    (hordered : ∀ run ∈ runs, cmp.Ordered run) :
    picks cmp .atCapacity capacity runs =
      ((byValue cmp).stableSort (numbered runs)).take capacity := by
  induction capacity generalizing runs with
  | zero => simp
  | succ capacity ih =>
      rw [picks_atCapacity_succ]
      by_cases hempty : runs.flatten = []
      · have hnumbered : numbered runs = [] := by
          rw [← List.map_eq_nil_iff, numbered, map_value_numberedFrom, hempty]
        simp [front?_eq_none_iff.2 hempty, hnumbered, Comparator.stableSort]
      · obtain ⟨left, x, rest, right, rfl, hleads⟩ := exists_leads cmp hempty
        simp only [List.forall_mem_append, List.forall_mem_cons] at hordered
        obtain ⟨hleft, hrun, hright⟩ := hordered
        have hrest : ∀ run ∈ left ++ rest :: right, cmp.Ordered run := by
          simp only [List.forall_mem_append, List.forall_mem_cons]
          exact ⟨hleft, (List.pairwise_cons.1 hrun).2, hright⟩
        have hbefore : ∀ y ∈ numberedFrom 0 left,
            (byValue cmp).precedes ⟨left.length, x⟩ y = true := by
          intro y hy
          exact hleads.precedes_of_mem_flatten hleft y.value (value_mem_flatten hy)
        have hafter : ∀ y ∈ rest.map (Pick.mk left.length) ++ numberedFrom (left.length + 1) right,
            (byValue cmp).precedes y ⟨left.length, x⟩ = false := by
          intro y hy
          rcases List.mem_append.1 hy with hy | hy
          · obtain ⟨z, hz, rfl⟩ := List.mem_map.1 hy
            exact Comparator.precedes_eq_false_iff.2 ((List.pairwise_cons.1 hrun).1 z hz)
          · exact hleads.not_precedes_of_mem_flatten hright y.value (value_mem_flatten hy)
        simp only [front?_of_leads hleads, dropHead_append_cons, ih hrest, numbered,
          numberedFrom_append, numberedFrom, List.map_cons, List.cons_append, Nat.zero_add]
        rw [Comparator.stableSort_append_cons hbefore hafter, List.take_succ_cons]

/-- **The head merge of ordered blocks is the stable sort of the whole.** -/
theorem headMerge_eq_stableSort [Std.TransCmp cmp] {blocks : List (List α)}
    (hordered : ∀ block ∈ blocks, cmp.Ordered block) :
    headMerge cmp blocks = cmp.stableSort blocks.flatten := by
  have hall : ((byValue cmp).stableSort (numbered blocks)).length ≤ blocks.flatten.length := by
    rw [Comparator.length_stableSort, length_numbered]
  calc headMerge cmp blocks
      = (headMerge cmp blocks).take blocks.flatten.length := by
        rw [List.take_of_length_le (by rw [length_headMerge])]
    _ = (picks cmp .atCapacity blocks.flatten.length blocks).map Pick.value := by
        rw [map_value_picks]
    _ = ((byValue cmp).stableSort (numbered blocks)).map Pick.value := by
        rw [picks_eq_take_stableSort _ hordered, List.take_of_length_le hall]
    _ = cmp.stableSort blocks.flatten := by
        rw [← map_value_numberedFrom 0 blocks]
        exact Comparator.map_stableSort Pick.value (numbered blocks)

/-! ### Tracked merges -/

/--
The first `count` elements of the stable sort of runs in a row, each with the number of the run
that it comes from.
-/
def firstOfSorted (cmp : Comparator α) (runs : List (List α)) (count : Nat) : List (Pick α) :=
  ((byValue cmp).stableSort (numbered runs)).take count

theorem map_value_firstOfSorted (runs : List (List α)) (count : Nat) :
    (firstOfSorted cmp runs count).map Pick.value =
      (cmp.stableSort runs.flatten).take count := by
  rw [firstOfSorted, List.map_take, ← map_value_numberedFrom 0 runs]
  congr 1
  exact Comparator.map_stableSort Pick.value (numbered runs)

/-- Counting the elements of a run among all of them gives its length. -/
theorem countP_firstOfSorted_of_le {runs : List (List α)} {count : Nat}
    (h : runs.flatten.length ≤ count) (i : Nat) :
    (firstOfSorted cmp runs count).countP (fun pick => pick.run == i) =
      (runs.getD i []).length := by
  have hall : ((byValue cmp).stableSort (numbered runs)).length ≤ count := by
    rw [Comparator.length_stableSort, length_numbered]
    exact h
  rw [firstOfSorted, List.take_of_length_le hall,
    (Comparator.perm_stableSort _ _).countP_eq, numbered, countP_numberedFrom]
  simp

/--
**A tracked merge of ordered runs puts out the first elements of the stable sort of the runs in a
row.** Its tally counts, for each run, those of them that come from it, and these are the front of
the run.
-/
theorem merge_ordered_runs (m : RunMerger α) [Std.TransCmp m.cmp] {runs : List (List α)}
    {capacity : Nat} (htwo : 2 ≤ runs.length) (hfan : runs.length ≤ m.fanIn.count)
    (hordered : ∀ run ∈ runs, m.cmp.Ordered run) (hcapacity : 1 ≤ capacity) :
    ∃ merged tally,
      m.merge runs capacity true = .ok merged ∧
      merged.tally = some tally ∧
      merged.output =
        (m.cmp.stableSort runs.flatten).take (min capacity runs.flatten.length) ∧
      merged.output = (firstOfSorted m.cmp runs capacity).map Pick.value ∧
      tally.runs = runs.length ∧
      (∀ i, tally.slot i =
        (firstOfSorted m.cmp runs capacity).countP fun pick => pick.run == i) ∧
      (∀ i, valuesFrom i (firstOfSorted m.cmp runs capacity) =
        (runs.getD i []).take (tally.slot i)) ∧
      (runs.flatten.length ≤ capacity → ∀ i, tally.slot i = (runs.getD i []).length) ∧
      ∀ i, runs.length ≤ i → tally.slot i = 0 := by
  have hpicks : picks m.cmp .atCapacity capacity runs = firstOfSorted m.cmp runs capacity :=
    picks_eq_take_stableSort capacity hordered
  refine ⟨_, _, merge_eq_ok htwo hfan hcapacity true, rfl, ?_, ?_, Tally.runs_ofPicks _ _,
    ?_, ?_, ?_, ?_⟩
  · rw [hpicks, map_value_firstOfSorted, List.take_eq_take_iff, Comparator.length_stableSort]
    omega
  · rw [hpicks]
  · intro i
    rw [slot_ofPicks_picks, hpicks]
  · intro i
    rw [slot_ofPicks_picks, ← hpicks]
    exact values_from_run .atCapacity capacity runs i
  · intro hlength i
    rw [slot_ofPicks_picks, hpicks, countP_firstOfSorted_of_le hlength]
  · intro i hi
    rw [Tally.slot_ofPicks, if_neg (by omega)]

theorem merge_ordered_runs_with_ties :
    ∃ merged tally,
      (RunMerger.mk Comparator.byTens .three).merge [[10, 25], [], [11, 12, 20]] 4 true =
        .ok merged ∧
      merged.tally = some tally ∧
      merged.output = [10, 11, 12, 25] ∧
      (Comparator.byTens.stableSort [10, 25, 11, 12, 20]).take 4 = [10, 11, 12, 25] ∧
      tally.slots = [2, 0, 2, 0] := by
  obtain ⟨merged, tally, hmerge, htally, houtput, -⟩ :=
    merge_ordered_runs (RunMerger.mk Comparator.byTens .three)
      (show 2 ≤ [[10, 25], [], [11, 12, 20]].length by decide) (by decide) (by decide)
      (show 1 ≤ 4 by decide)
  have hrun : (RunMerger.mk Comparator.byTens .three).merge [[10, 25], [], [11, 12, 20]] 4 true =
      .ok ⟨[10, 11, 12, 25], some ⟨[2, 0, 2]⟩⟩ := rfl
  rw [hrun] at hmerge
  obtain rfl := Except.ok.inj hmerge
  obtain rfl := Option.some.inj htally
  exact ⟨_, _, hrun, rfl, rfl, houtput.symm, rfl⟩

end KWayMerge
