import KWayMerge.Proofs.Merge.Restart
import KWayMerge.Proofs.Order.Inversions

/-!
# Disorder that comes through a merge

A merge of runs that are out of order comes out in the wrong order, but not everywhere. Of two
elements that a merge puts out one after the other, the second was a head already when the first
one led, or it comes from the same run. So under a total preorder a merge never makes an inversion:
each one in its output is one in what has been consumed of a run, and what has not been consumed
does not matter.

**Results.**
* `isChain_picks`: picks in a row come from one run or are in order.
* `ordered_picks_iff`: the picks are in order if those from each run are.
* `merge_has_inversion_of_consumed_front`: when the output of a merge is out of order.
-/

namespace KWayMerge

universe u

variable {α : Type u} {cmp : Comparator α}

/-! ### Neighbours among picks -/

/-- The head of every other run may leave after a leading head. -/
theorem Leads.isLE_of_getD_eq_cons [Std.TransCmp cmp] {left right : List (List α)} {x y : α}
    {block rest : List α} {i : Nat} (h : Leads cmp left x right) (hi : i ≠ left.length)
    (hy : (left ++ block :: right).getD i [] = y :: rest) : (cmp x y).isLE = true := by
  rcases Nat.lt_or_gt_of_ne hi with hlt | hgt
  · rw [List.getD_append _ _ _ _ hlt] at hy
    exact Comparator.isLE_of_precedes (h.before y (head_mem_heads (mem_of_getD_eq_cons hy)))
  · obtain ⟨j, rfl⟩ := Nat.exists_eq_add_of_lt hgt
    rw [List.getD_append_right _ _ _ _ (by omega), Nat.add_assoc, Nat.add_sub_cancel_left,
      List.getD_cons_succ] at hy
    exact Comparator.precedes_eq_false_iff.1
      (h.after y (head_mem_heads (mem_of_getD_eq_cons hy)))

theorem exists_leads_of_front? [Std.TransCmp cmp] {runs : List (List α)} {pick : Pick α}
    (h : front? cmp runs = some pick) :
    ∃ left rest right, runs = left ++ (pick.value :: rest) :: right ∧
      pick.run = left.length ∧ Leads cmp left pick.value right := by
  have hsome : runs.flatten ≠ [] := by
    intro hempty
    have hnone : front? cmp runs = none := front?_eq_none_iff.2 hempty
    rw [hnone] at h
    exact absurd h (Option.some_ne_none pick).symm
  obtain ⟨left, x, rest, right, rfl, hleads⟩ := exists_leads cmp hsome
  rw [front?_of_leads hleads, Option.some.injEq] at h
  subst h
  exact ⟨left, rest, right, rfl, rfl, hleads⟩

/-- A pick may come right behind another: it is from the same run, or it is not before it. -/
def InTurn (cmp : Comparator α) (a b : Pick α) : Prop :=
  a.run = b.run ∨ (cmp a.value b.value).isLE = true

/-- **The head that leaves next was there before, or it stood behind the one that left.** -/
theorem inTurn_of_front? [Std.TransCmp cmp] {runs : List (List α)} {a b : Pick α}
    (ha : front? cmp runs = some a) (hb : front? cmp (dropHead runs a.run) = some b) :
    InTurn cmp a b := by
  obtain ⟨rest, hrest⟩ := getD_of_front? hb
  rw [getD_dropHead] at hrest
  by_cases hrun : a.run = b.run
  · exact Or.inl hrun
  · rw [if_neg hrun] at hrest
    obtain ⟨left, tail, right, rfl, hleft, hleads⟩ := exists_leads_of_front? ha
    exact Or.inr (hleads.isLE_of_getD_eq_cons (hleft ▸ Ne.symm hrun) hrest)

theorem front?_of_head?_picks {stop : StopRule} {capacity : Nat} {runs : List (List α)}
    {pick : Pick α} (h : (picks cmp stop capacity runs).head? = some pick) :
    front? cmp runs = some pick := by
  cases capacity with
  | zero => simp at h
  | succ capacity =>
      rw [picks_succ] at h
      cases hfront : front? cmp runs with
      | none => simp [hfront] at h
      | some first => simpa [hfront] using h

/-- **Picks in a row come from one run or are in order.** -/
theorem isChain_picks [Std.TransCmp cmp] (stop : StopRule) (capacity : Nat)
    (runs : List (List α)) : (picks cmp stop capacity runs).IsChain (InTurn cmp) := by
  induction capacity generalizing runs with
  | zero => exact List.isChain_nil
  | succ capacity ih =>
      rw [picks_succ]
      cases hfront : front? cmp runs with
      | none => exact List.isChain_nil
      | some first =>
          dsimp only
          rw [List.isChain_cons]
          split
          · simp
          · refine ⟨?_, ih _⟩
            intro second hsecond
            exact inTurn_of_front? hfront (front?_of_head?_picks hsecond)

/-! ### Order among picks -/

/-- What holds of all runs, and of one that is not there, holds of each run by its number. -/
theorem forall_getD_nil_iff {runs : List (List α)} {P : List α → Prop} (hnil : P []) :
    (∀ i, P (runs.getD i [])) ↔ ∀ run ∈ runs, P run := by
  constructor
  · intro h run hrun
    obtain ⟨i, hi, rfl⟩ := List.getElem_of_mem hrun
    have hget := h i
    rwa [List.getD_eq_getElem _ _ hi] at hget
  · intro h i
    cases hrun : runs.getD i [] with
    | nil => exact hnil
    | cons x rest => exact h _ (mem_of_getD_eq_cons hrun)

theorem valuesFrom_sublist (i : Nat) (taken : List (Pick α)) :
    (valuesFrom i taken).Sublist (taken.map Pick.value) :=
  List.filter_sublist.map Pick.value

/-- If neighbours come from one run or are in order, the order in the runs is enough. -/
theorem ordered_of_isChain [Std.TransCmp cmp] {taken : List (Pick α)}
    (hchain : taken.IsChain (InTurn cmp)) (hruns : ∀ i, cmp.Ordered (valuesFrom i taken)) :
    cmp.Ordered (taken.map Pick.value) := by
  induction taken with
  | nil => exact List.Pairwise.nil
  | cons a taken ih =>
      rw [List.isChain_cons] at hchain
      obtain ⟨hturn, hchain⟩ := hchain
      have hrest : cmp.Ordered (taken.map Pick.value) := by
        refine ih hchain fun i => (hruns i).sublist ?_
        exact ((List.sublist_cons_self a taken).filter _).map Pick.value
      cases taken with
      | nil => exact List.pairwise_singleton _ _
      | cons b rest =>
          have hab : (cmp a.value b.value).isLE = true := by
            rcases hturn b rfl with hrun | hle
            · have hboth := hruns a.run
              rw [valuesFrom_cons, if_pos rfl, valuesFrom_cons, if_pos hrun.symm] at hboth
              exact (List.pairwise_cons.1 hboth).1 b.value List.mem_cons_self
            · exact hle
          refine List.pairwise_cons.2 ⟨?_, hrest⟩
          intro y hy
          exact Std.TransCmp.isLE_trans hab (Comparator.isLE_head_of_mem hrest hy)

/-- **The picks are in order exactly if those from each run are.** -/
theorem ordered_picks_iff [Std.TransCmp cmp] (stop : StopRule) (capacity : Nat)
    (runs : List (List α)) :
    cmp.Ordered ((picks cmp stop capacity runs).map Pick.value) ↔
      ∀ i, cmp.Ordered (valuesFrom i (picks cmp stop capacity runs)) := by
  constructor
  · intro h i
    exact h.sublist (valuesFrom_sublist i _)
  · exact ordered_of_isChain (isChain_picks stop capacity runs)

/-- Picks from runs that are in order are in order, wherever the merge stops. -/
theorem ordered_picks_of_ordered [Std.TransCmp cmp] {runs : List (List α)}
    (hordered : ∀ run ∈ runs, cmp.Ordered run) (stop : StopRule) (capacity : Nat) :
    cmp.Ordered ((picks cmp stop capacity runs).map Pick.value) := by
  rw [ordered_picks_iff]
  intro i
  refine List.Pairwise.sublist (valuesFrom_isPrefix stop capacity runs i).sublist ?_
  exact forall_getD_nil_iff List.Pairwise.nil |>.2 hordered i

/-! ### Inversions in the output -/

/--
**The output of a merge has an inversion exactly if a front of a run that it consumed has one.** So
a merge of everything comes out in order exactly if all runs are in order, and one that stops short
is out of order exactly if it has consumed a run beyond the place of its first inversion.
-/
theorem merge_has_inversion_of_consumed_front
    (m : RunMerger α) [Std.TransCmp m.cmp]
    {runs : List (List α)}
    (htwo : 2 ≤ runs.length)
    (hfan : runs.length ≤ m.fanIn.count)
    {capacity : Nat}
    (hcapacity : 1 ≤ capacity) :
    ∃ output tally,
      (∀ track, m.merge runs capacity track =
        .ok ⟨output, if track then some tally else none⟩) ∧
      (m.cmp.firstInversion? output = none ↔ m.cmp.Ordered output) ∧
      (m.cmp.firstInversion? output = none ↔
        ∀ i, m.cmp.firstInversion? ((runs.getD i []).take (tally.slot i)) = none) ∧
      (runs.flatten.length ≤ capacity →
        (m.cmp.firstInversion? output = none ↔
          ∀ run ∈ runs, m.cmp.firstInversion? run = none)) ∧
      (m.cmp.firstInversion? output ≠ none ↔
        ∃ i place, m.cmp.firstInversion? (runs.getD i []) = some place ∧
          place < tally.slot i) := by
  have hfronts : m.cmp.firstInversion?
      ((picks m.cmp .atCapacity capacity runs).map Pick.value) = none ↔
      ∀ i, m.cmp.firstInversion? ((runs.getD i []).take
        ((Tally.ofPicks runs.length (picks m.cmp .atCapacity capacity runs)).slot i)) = none := by
    simp only [take_slot_ofPicks, Comparator.firstInversion?_eq_none_iff_ordered]
    exact ordered_picks_iff .atCapacity capacity runs
  refine ⟨_, Tally.ofPicks runs.length (picks m.cmp .atCapacity capacity runs),
    fun track => merge_eq_ok htwo hfan hcapacity track,
    Comparator.firstInversion?_eq_none_iff_ordered, hfronts, ?_, ?_⟩
  · intro hall
    rw [hfronts]
    simp only [take_slot_ofPicks, valuesFrom_of_length_le hall]
    exact forall_getD_nil_iff (P := fun run => m.cmp.firstInversion? run = none) rfl
  · rw [ne_eq, hfronts]
    simp only [Comparator.firstInversion?_take, Option.filter_eq_none_iff, decide_eq_true_eq]
    push Not
    rfl

theorem merge_of_disordered_run_cut_off :
    ∃ output output',
      (RunMerger.mk Comparator.byTens .two).merge [[10, 25, 3], [11, 20]] 3 true =
        .ok ⟨output, some ⟨[2, 1]⟩⟩ ∧
      output = [10, 11, 25] ∧
      Comparator.byTens.Ordered output ∧
      (RunMerger.mk Comparator.byTens .two).merge [[10, 25, 3], [11, 20]] 4 true =
        .ok ⟨output', some ⟨[3, 1]⟩⟩ ∧
      output' = [10, 11, 25, 3] ∧
      ¬ Comparator.byTens.Ordered output' := by
  obtain ⟨output, tally, hmerge, hordered, hfronts, -, -⟩ :=
    merge_has_inversion_of_consumed_front (RunMerger.mk Comparator.byTens .two)
      (show 2 ≤ [[10, 25, 3], [11, 20]].length by decide) (by decide) (show 1 ≤ 3 by decide)
  obtain ⟨output', tally', hmerge', hordered', -, -, hplace⟩ :=
    merge_has_inversion_of_consumed_front (RunMerger.mk Comparator.byTens .two)
      (show 2 ≤ [[10, 25, 3], [11, 20]].length by decide) (by decide) (show 1 ≤ 4 by decide)
  have hrun : (RunMerger.mk Comparator.byTens .two).merge [[10, 25, 3], [11, 20]] 3 true =
      .ok ⟨[10, 11, 25], some ⟨[2, 1]⟩⟩ := rfl
  have hrun' : (RunMerger.mk Comparator.byTens .two).merge [[10, 25, 3], [11, 20]] 4 true =
      .ok ⟨[10, 11, 25, 3], some ⟨[3, 1]⟩⟩ := rfl
  have htracked := hmerge true
  have htracked' := hmerge' true
  rw [hrun] at htracked
  rw [hrun'] at htracked'
  obtain ⟨rfl, htally⟩ := Merged.mk.inj (Except.ok.inj htracked)
  obtain ⟨rfl, htally'⟩ := Merged.mk.inj (Except.ok.inj htracked')
  obtain rfl := Option.some.inj htally
  obtain rfl := Option.some.inj htally'
  refine ⟨_, _, hrun, rfl, ?_, hrun', rfl, ?_⟩
  · -- of the first run no more than `10` and `25` has been consumed
    rw [← hordered, hfronts]
    intro i
    rcases i with _ | _ | i
    · rfl
    · rfl
    · exact congrArg _ List.take_nil
  · rw [← hordered']
    exact hplace.2 ⟨0, 2, rfl, by decide⟩

end KWayMerge
