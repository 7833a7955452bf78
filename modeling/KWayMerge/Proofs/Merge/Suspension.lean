import KWayMerge.Proofs.Merge.Restart
import Mathlib.Order.Bounds.Basic

/-!
# Where a suspended merge stops

A merge that may be suspended looks, after each element, only at the run that the element came
from. That is enough for it to stop at the first place where some run that held elements has been
used up: before it, no run has been, and at it no other run than the one looked at. A run that is
empty from the start is never looked at. The comparator may be any, and the runs in any order.

**Results.**
* `emptied_cons_iff`: which runs one pick and those after it empty.
* `SuspendedPicks.not_emptied_take`, `SuspendedPicks.eq_append_of_emptied` and
  `SuspendedPicks.exists_emptied`: no run is emptied before the last pick of a suspended merge, no
  other than the run of the last pick is emptied by it, and that one is if the merge stops short.
* `isLeast_length_picks_whenRunEnds`: a suspended merge is as long as the first front of the
  output that uses up a run.
* `mergeUntilRunEnds_stops_at_first_end`: this of the output and the tally.
-/

namespace KWayMerge

universe u

variable {α : Type u} {cmp : Comparator α}

/-- Run `i` held elements, and the tally counts all of them. -/
def UsedUp (runs : List (List α)) (tally : Tally) (i : Nat) : Prop :=
  runs.getD i [] ≠ [] ∧ tally.slot i = (runs.getD i []).length

/-- After `n` elements of their merge, some run that held elements has been used up. -/
def RunMerger.EndsRun (m : RunMerger α) (runs : List (List α)) (n : Nat) : Prop :=
  ∃ merged tally i,
    m.merge runs n true = .ok merged ∧
    merged.tally = some tally ∧
    UsedUp runs tally i

/-! ### Runs that picks empty -/

/-- Run `i` held elements, and none remains after these picks. -/
def Emptied (runs : List (List α)) (taken : List (Pick α)) (i : Nat) : Prop :=
  runs.getD i [] ≠ [] ∧ (runsAfter runs taken).getD i [] = []

theorem not_emptied_nil (runs : List (List α)) (i : Nat) : ¬ Emptied runs [] i := by
  rintro ⟨hsome, hnone⟩
  rw [runsAfter_nil] at hnone
  exact hsome hnone

/-- **A run is emptied by the later picks, or it is that of the first and had no more.** -/
theorem emptied_cons_iff {runs : List (List α)} {pick : Pick α}
    (hfront : front? cmp runs = some pick) (taken : List (Pick α)) (i : Nat) :
    Emptied runs (pick :: taken) i ↔
      Emptied (dropHead runs pick.run) taken i ∨
        pick.run = i ∧ (dropHead runs pick.run).getD i [] = [] := by
  rw [Emptied, Emptied, runsAfter_cons]
  by_cases hi : pick.run = i
  · subst hi
    obtain ⟨rest, hrun⟩ := getD_of_front? hfront
    have hheld : runs.getD pick.run [] ≠ [] := by
      rw [hrun]
      exact List.cons_ne_nil _ _
    constructor
    · rintro ⟨-, hnone⟩
      by_cases hmore : (dropHead runs pick.run).getD pick.run [] = []
      · exact Or.inr ⟨rfl, hmore⟩
      · exact Or.inl ⟨hmore, hnone⟩
    · rintro (⟨-, hnone⟩ | ⟨-, hmore⟩)
      · exact ⟨hheld, hnone⟩
      · refine ⟨hheld, ?_⟩
        rw [getD_runsAfter, hmore, List.drop_nil]
  · rw [getD_dropHead, if_neg hi]
    constructor
    · exact Or.inl
    · rintro (h | ⟨hrun, -⟩)
      · exact h
      · exact absurd hrun hi

/-! ### The course of a suspended merge -/

/--
The picks of a merge that is suspended once a run has been emptied: there is nothing to pick, or
the first pick empties its run, or the merge goes on from what the first pick leaves.
-/
inductive SuspendedPicks (cmp : Comparator α) : Nat → List (List α) → List (Pick α) → Prop
  | nothing {capacity : Nat} {runs : List (List α)} :
      min capacity runs.flatten.length = 0 →
      SuspendedPicks cmp capacity runs []
  | ends {capacity : Nat} {runs : List (List α)} {pick : Pick α} :
      front? cmp runs = some pick →
      (dropHead runs pick.run).getD pick.run [] = [] →
      SuspendedPicks cmp (capacity + 1) runs [pick]
  | goesOn {capacity : Nat} {runs : List (List α)} {pick : Pick α} {later : List (Pick α)} :
      front? cmp runs = some pick →
      (dropHead runs pick.run).getD pick.run [] ≠ [] →
      SuspendedPicks cmp capacity (dropHead runs pick.run) later →
      SuspendedPicks cmp (capacity + 1) runs (pick :: later)

theorem suspendedPicks (capacity : Nat) (runs : List (List α)) :
    SuspendedPicks cmp capacity runs (picks cmp .whenRunEnds capacity runs) := by
  induction capacity generalizing runs with
  | zero => exact .nothing (Nat.zero_min _)
  | succ capacity ih =>
      rw [picks_succ]
      cases hfront : front? cmp runs with
      | none =>
          have hempty := front?_eq_none_iff.1 hfront
          exact .nothing (by rw [hempty, List.length_nil, Nat.min_zero])
      | some pick =>
          dsimp only
          by_cases hmore : (dropHead runs pick.run).getD pick.run [] = []
          · rw [StopRule.suspends, hmore, List.isEmpty_nil, if_pos rfl]
            exact .ends hfront hmore
          · rw [StopRule.suspends, if_neg (mt List.isEmpty_iff.1 hmore)]
            exact .goesOn hfront hmore (ih _)

namespace SuspendedPicks

variable {capacity : Nat} {runs : List (List α)} {taken : List (Pick α)}

theorem length_le (h : SuspendedPicks cmp capacity runs taken) :
    taken.length ≤ min capacity runs.flatten.length := by
  induction h with
  | nothing _ => exact Nat.zero_le _
  | ends hfront _ =>
      have hlength := length_flatten_dropHead hfront
      rw [List.length_singleton]
      omega
  | goesOn hfront _ _ ih =>
      have hlength := length_flatten_dropHead hfront
      rw [List.length_cons]
      omega

/-- **No run is emptied before the last pick.** -/
theorem not_emptied_take (h : SuspendedPicks cmp capacity runs taken) {n : Nat}
    (hn : n < taken.length) (i : Nat) : ¬ Emptied runs (taken.take n) i := by
  induction h generalizing n with
  | nothing _ => exact absurd hn (Nat.not_lt_zero n)
  | ends _ _ =>
      obtain rfl : n = 0 := Nat.lt_one_iff.1 hn
      exact not_emptied_nil _ i
  | goesOn hfront hmore _ ih =>
      cases n with
      | zero => exact not_emptied_nil _ i
      | succ n =>
          rw [List.take_succ_cons, emptied_cons_iff hfront]
          rintro (hlater | ⟨rfl, hnone⟩)
          · exact ih (Nat.lt_of_succ_lt_succ hn) hlater
          · exact hmore hnone

/-- **A run that is emptied is that of the last pick.** -/
theorem eq_append_of_emptied (h : SuspendedPicks cmp capacity runs taken) {i : Nat}
    (hemptied : Emptied runs taken i) : ∃ before x, taken = before ++ [⟨i, x⟩] := by
  induction h with
  | nothing _ => exact absurd hemptied (not_emptied_nil _ i)
  | @ends _ _ pick hfront _ =>
      rw [emptied_cons_iff hfront] at hemptied
      rcases hemptied with hlater | ⟨rfl, -⟩
      · exact absurd hlater (not_emptied_nil _ i)
      · exact ⟨[], pick.value, rfl⟩
  | @goesOn _ _ pick _ hfront hmore _ ih =>
      rw [emptied_cons_iff hfront] at hemptied
      rcases hemptied with hlater | ⟨rfl, hnone⟩
      · obtain ⟨before, x, rfl⟩ := ih hlater
        exact ⟨pick :: before, x, rfl⟩
      · exact absurd hnone hmore

/-- So no two runs are emptied. -/
theorem eq_of_emptied (h : SuspendedPicks cmp capacity runs taken) {i j : Nat}
    (hi : Emptied runs taken i) (hj : Emptied runs taken j) : i = j := by
  obtain ⟨before, x, hx⟩ := h.eq_append_of_emptied hi
  obtain ⟨others, y, hy⟩ := h.eq_append_of_emptied hj
  have hlast : [Pick.mk i x] = [Pick.mk j y] := List.append_inj_right' (hx.symm.trans hy) rfl
  exact congrArg Pick.run (List.head_eq_of_cons_eq hlast)

/-- **A merge stops short only when a run is emptied.** -/
theorem exists_emptied (h : SuspendedPicks cmp capacity runs taken)
    (hshort : taken.length < min capacity runs.flatten.length) : ∃ i, Emptied runs taken i := by
  induction h with
  | nothing hnone => exact absurd hshort (by omega)
  | @ends _ _ pick hfront hmore =>
      refine ⟨pick.run, ?_⟩
      rw [emptied_cons_iff hfront]
      exact Or.inr ⟨rfl, hmore⟩
  | goesOn hfront _ _ ih =>
      have hlength := length_flatten_dropHead hfront
      rw [List.length_cons] at hshort
      obtain ⟨i, hlater⟩ := ih (by omega)
      refine ⟨i, ?_⟩
      rw [emptied_cons_iff hfront]
      exact Or.inl hlater

end SuspendedPicks

/-- A suspended merge takes the first picks of one that is not. -/
theorem take_length_picks_whenRunEnds (capacity : Nat) (runs : List (List α)) :
    (picks cmp .atCapacity capacity runs).take (picks cmp .whenRunEnds capacity runs).length =
      picks cmp .whenRunEnds capacity runs := by
  have hle : (picks cmp .whenRunEnds capacity runs).length ≤ _ :=
    (suspendedPicks capacity runs).length_le
  rw [take_picks, Nat.min_eq_left (by omega), ← picks_whenRunEnds (FrontsOf.refl runs)]

/-- A merge to as many elements, or to one if there are none, takes those of a suspended merge. -/
theorem picks_max_one_length {capacity : Nat} (hcapacity : 0 < capacity)
    (runs : List (List α)) :
    picks cmp .atCapacity (max 1 (picks cmp .whenRunEnds capacity runs).length) runs =
      picks cmp .whenRunEnds capacity runs := by
  have hsuspended : picks cmp .whenRunEnds capacity runs =
      picks cmp .atCapacity (picks cmp .whenRunEnds capacity runs).length runs :=
    picks_whenRunEnds (FrontsOf.refl runs) capacity
  rcases Nat.eq_zero_or_pos (picks cmp .whenRunEnds capacity runs).length with hzero | hpos
  · have hnone : picks cmp .whenRunEnds capacity runs = [] := List.length_eq_zero_iff.1 hzero
    have hempty : ¬ 0 < min capacity runs.flatten.length := by
      rw [← hzero]
      intro hshort
      obtain ⟨i, hemptied⟩ := (suspendedPicks capacity runs).exists_emptied hshort
      rw [hnone] at hemptied
      exact not_emptied_nil runs i hemptied
    rw [hnone, ← List.length_eq_zero_iff, length_picks]
    omega
  · rw [Nat.max_eq_right hpos, ← hsuspended]

/-! ### What the tallies say of it -/

/-- A tally counts all of a run exactly when its picks have emptied the run. -/
theorem usedUp_ofPicks_iff {stop : StopRule} {capacity : Nat} {runs : List (List α)} {i : Nat} :
    UsedUp runs (Tally.ofPicks runs.length (picks cmp stop capacity runs)) i ↔
      Emptied runs (picks cmp stop capacity runs) i := by
  rw [UsedUp, Emptied]
  refine and_congr_right ?_
  intro hheld
  have hi : i < runs.length := by
    by_contra hge
    exact hheld (List.getD_eq_default _ _ (not_lt.1 hge))
  have hcount : (valuesFrom i (picks cmp stop capacity runs)).length ≤ (runs.getD i []).length :=
    (valuesFrom_isPrefix stop capacity runs i).length_le
  rw [length_valuesFrom] at hcount
  rw [Tally.slot_ofPicks, if_pos hi, getD_runsAfter, List.drop_eq_nil_iff]
  omega

section Merges

variable {m : RunMerger α} {runs : List (List α)}

theorem endsRun_iff (htwo : 2 ≤ runs.length) (hfan : runs.length ≤ m.fanIn.count) (n : Nat) :
    m.EndsRun runs n ↔ ∃ i, Emptied runs (picks m.cmp .atCapacity n runs) i := by
  constructor
  · rintro ⟨merged, tally, i, hmerge, htally, hused⟩
    rcases Nat.eq_zero_or_pos n with rfl | hn
    · rw [RunMerger.merge, RunMerger.accept, if_neg (by omega), if_pos rfl] at hmerge
      simp at hmerge
    · rw [merge_eq_ok htwo hfan hn] at hmerge
      obtain rfl := Except.ok.inj hmerge
      obtain rfl := Option.some.inj htally
      exact ⟨i, usedUp_ofPicks_iff.1 hused⟩
  · rintro ⟨i, hemptied⟩
    rcases Nat.eq_zero_or_pos n with rfl | hn
    · exact absurd hemptied (not_emptied_nil runs i)
    · exact ⟨_, _, i, merge_eq_ok htwo hfan hn true, rfl, usedUp_ofPicks_iff.2 hemptied⟩

/-- **The first place where a run has been used up is the length of a suspended merge.** -/
theorem isLeast_length_picks_whenRunEnds (htwo : 2 ≤ runs.length)
    (hfan : runs.length ≤ m.fanIn.count) (capacity : Nat) :
    IsLeast {n | n ≤ (picks m.cmp .atCapacity capacity runs).length ∧ m.EndsRun runs n}
        (picks m.cmp .whenRunEnds capacity runs).length ∨
      (∀ n ≤ (picks m.cmp .atCapacity capacity runs).length, ¬ m.EndsRun runs n) ∧
        picks m.cmp .whenRunEnds capacity runs = picks m.cmp .atCapacity capacity runs := by
  have hsuspended : picks m.cmp .whenRunEnds capacity runs =
      picks m.cmp .atCapacity (picks m.cmp .whenRunEnds capacity runs).length runs :=
    picks_whenRunEnds (FrontsOf.refl runs) capacity
  have hfull : (picks m.cmp .atCapacity capacity runs).length =
      min capacity runs.flatten.length := length_picks capacity runs
  have hle : (picks m.cmp .whenRunEnds capacity runs).length ≤
      (picks m.cmp .atCapacity capacity runs).length := by
    rw [hfull]
    exact (suspendedPicks capacity runs).length_le
  have hbefore : ∀ n < (picks m.cmp .whenRunEnds capacity runs).length,
      ¬ m.EndsRun runs n := by
    intro n hn
    rw [endsRun_iff htwo hfan]
    rintro ⟨i, hemptied⟩
    refine (suspendedPicks capacity runs).not_emptied_take hn i ?_
    rwa [hsuspended, take_picks, Nat.min_eq_left hn.le]
  by_cases hends : ∃ i, Emptied runs (picks m.cmp .whenRunEnds capacity runs) i
  · refine Or.inl ⟨⟨hle, ?_⟩, ?_⟩
    · rw [endsRun_iff htwo hfan, ← hsuspended]
      exact hends
    · rintro n ⟨-, hn⟩
      by_contra hlt
      exact hbefore n (not_le.1 hlt) hn
  · have hall : (picks m.cmp .whenRunEnds capacity runs).length =
        (picks m.cmp .atCapacity capacity runs).length := by
      by_contra hne
      exact hends ((suspendedPicks capacity runs).exists_emptied (by omega))
    refine Or.inr ⟨?_, ?_⟩
    · intro n hn
      rcases Nat.lt_or_eq_of_le (hall ▸ hn) with hlt | rfl
      · exact hbefore n hlt
      · rw [endsRun_iff htwo hfan, ← hsuspended]
        exact hends
    · rw [← take_length_picks_whenRunEnds, hall, List.take_length]

end Merges

/--
**A suspended merge puts out the shortest front of the full output that uses up a run**, or all of
it if there is none. Its tally is that of a merge to as many elements, or to one if it puts out
none. At most one run that held elements is used up, and that run gave the last element; exactly
one is if the merge stops short of its capacity with elements left. So no run that is empty from
the start stops it.
-/
theorem mergeUntilRunEnds_stops_at_first_end
    (m : RunMerger α)
    {runs : List (List α)}
    (htwo : 2 ≤ runs.length)
    (hfan : runs.length ≤ m.fanIn.count)
    {capacity : Nat}
    (hcapacity : 1 ≤ capacity) :
    ∃ suspended tally merged,
      m.mergeUntilRunEnds runs capacity = .ok suspended ∧
      suspended.tally = some tally ∧
      m.merge runs capacity true = .ok merged ∧
      suspended.output <+: merged.output ∧
      (IsLeast {n | n ≤ merged.output.length ∧ m.EndsRun runs n} suspended.output.length ∨
        (∀ n ≤ merged.output.length, ¬ m.EndsRun runs n) ∧
          suspended.output = merged.output) ∧
      m.merge runs (max 1 suspended.output.length) true = .ok suspended ∧
      (∀ i, UsedUp runs tally i → ∃ taken x,
        picks m.cmp .whenRunEnds capacity runs = taken ++ [⟨i, x⟩] ∧
        suspended.output = taken.map Pick.value ++ [x]) ∧
      (∀ i j, UsedUp runs tally i → UsedUp runs tally j → i = j) ∧
      (suspended.output.length < min capacity runs.flatten.length →
        ∃! i, UsedUp runs tally i) := by
  have hlength : ((picks m.cmp .whenRunEnds capacity runs).map Pick.value).length =
      (picks m.cmp .whenRunEnds capacity runs).length := List.length_map _
  refine ⟨_, _, _, mergeUntilRunEnds_eq_ok htwo hfan hcapacity, rfl,
    merge_eq_ok htwo hfan hcapacity true, ?_, ?_, ?_, ?_, ?_, ?_⟩
  · dsimp only
    rw [← take_length_picks_whenRunEnds, List.map_take]
    exact List.take_prefix _ _
  · dsimp only
    rw [hlength, List.length_map]
    rcases isLeast_length_picks_whenRunEnds htwo hfan capacity with hleast | ⟨hnone, hall⟩
    · exact Or.inl hleast
    · exact Or.inr ⟨hnone, congrArg (List.map Pick.value) hall⟩
  · dsimp only
    rw [hlength, merge_eq_ok htwo hfan (Nat.lt_of_lt_of_le Nat.zero_lt_one (Nat.le_max_left _ _)),
      picks_max_one_length hcapacity]
    rfl
  · intro i hused
    obtain ⟨taken, x, htaken⟩ :=
      (suspendedPicks capacity runs).eq_append_of_emptied (usedUp_ofPicks_iff.1 hused)
    refine ⟨taken, x, htaken, ?_⟩
    dsimp only
    rw [htaken, List.map_append]
    rfl
  · intro i j hi hj
    exact (suspendedPicks capacity runs).eq_of_emptied (usedUp_ofPicks_iff.1 hi)
      (usedUp_ofPicks_iff.1 hj)
  · intro hshort
    dsimp only at hshort
    rw [hlength] at hshort
    obtain ⟨i, hemptied⟩ := (suspendedPicks capacity runs).exists_emptied hshort
    refine ⟨i, usedUp_ofPicks_iff.2 hemptied, ?_⟩
    intro j hj
    exact (suspendedPicks capacity runs).eq_of_emptied (usedUp_ofPicks_iff.1 hj) hemptied

theorem mergeUntilRunEnds_of_lawless_runs :
    ∃ suspended tally,
      (RunMerger.mk Comparator.alwaysBefore .three).mergeUntilRunEnds [[4, 2, 5], [], [3, 6]] 4 =
        .ok suspended ∧
      suspended.tally = some tally ∧
      (RunMerger.mk Comparator.alwaysBefore .three).merge [[4, 2, 5], [], [3, 6]] 2 true =
        .ok suspended ∧
      suspended.output = [3, 6] ∧
      UsedUp [[4, 2, 5], [], [3, 6]] tally 2 ∧
      ∀ i, UsedUp [[4, 2, 5], [], [3, 6]] tally i → i = 2 := by
  obtain ⟨suspended, tally, merged, hrun, htally, -, -, -, hmerge, -, honly, -⟩ :=
    mergeUntilRunEnds_stops_at_first_end (RunMerger.mk Comparator.alwaysBefore .three)
      (show 2 ≤ [[4, 2, 5], [], [3, 6]].length by decide) (by decide) (show 1 ≤ 4 by decide)
  have hstop : (RunMerger.mk Comparator.alwaysBefore .three).mergeUntilRunEnds
      [[4, 2, 5], [], [3, 6]] 4 = .ok ⟨[3, 6], some ⟨[0, 0, 2]⟩⟩ := rfl
  rw [hstop] at hrun
  obtain rfl := Except.ok.inj hrun
  obtain rfl := Option.some.inj htally
  have hused : UsedUp [[4, 2, 5], [], [3, 6]] ⟨[0, 0, 2]⟩ 2 := ⟨by decide, rfl⟩
  exact ⟨_, _, hstop, rfl, hmerge, rfl, hused, fun i hi => honly i 2 hi hused⟩

end KWayMerge
