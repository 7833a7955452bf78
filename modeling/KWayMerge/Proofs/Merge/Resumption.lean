import KWayMerge.Proofs.Merge.Progress

/-!
# Merges in steps

A merge may be cut into steps. Each step merges what remains of the runs, up to a capacity of its
own and perhaps suspended before that, and the tally of the step moves the progress on. However
the steps are cut, no step is refused, and what has been put out is what one merge to that many
elements puts out, with the same tally. The comparator may be any, and the runs in any order.

**Results.**
* `resume_after`: what one step does, from a state that some picks have led to.
* `foldlM_resume_after`: what any sequence of steps does.
* `resumeAll_eq_one_shot`: the steps together are one merge.
-/

namespace KWayMerge

universe u

variable {α : Type u}

/-- A step of a merge: the rule by which it stops, and how much it may put out. -/
structure MergeStep where
  stop : StopRule
  capacity : Nat
deriving DecidableEq, Repr

/-- A merge between two of its steps: what has been put out, and how far it has come. -/
structure Resumed (α : Type u) where
  output : List α
  progress : Progress

namespace RunMerger

/-- A merge with a tally that stops by the given rule. -/
def mergeUntil (m : RunMerger α) (stop : StopRule) (runs : List (List α)) (capacity : Nat) :
    Except Fault (Merged α) :=
  match stop with
  | .atCapacity => m.merge runs capacity true
  | .whenRunEnds => m.mergeUntilRunEnds runs capacity

/-- Merges what remains of the runs and moves the progress on by the tally. -/
def resume (m : RunMerger α) (runs : List (List α)) (s : Resumed α) (step : MergeStep) :
    Except Fault (Resumed α) :=
  match m.mergeUntil step.stop (s.progress.remainingRuns runs) step.capacity with
  | .error fault => .error fault
  | .ok merged =>
      match s.progress.advance (merged.tally.getD Tally.empty) with
      | .error fault => .error fault
      | .ok progress => .ok ⟨s.output ++ merged.output, progress⟩

/-- Takes steps from the start of the runs, up to the first that is refused. -/
def resumeAll (m : RunMerger α) (runs : List (List α)) (steps : List MergeStep) :
    Except Fault (Resumed α) :=
  match Progress.ofRuns runs with
  | .error fault => .error fault
  | .ok progress => steps.foldlM (m.resume runs) ⟨[], progress⟩

end RunMerger

/-- The state that a merge is in after these picks. -/
def Resumed.after (runs : List (List α)) (taken : List (Pick α)) : Resumed α :=
  ⟨taken.map Pick.value, Progress.after runs taken⟩

section Steps

variable {m : RunMerger α} {runs : List (List α)}

theorem mergeUntil_eq_ok (htwo : 2 ≤ runs.length) (hfan : runs.length ≤ m.fanIn.count)
    {capacity : Nat} (hcapacity : 0 < capacity) (stop : StopRule) :
    m.mergeUntil stop runs capacity =
      .ok ⟨(picks m.cmp stop capacity runs).map Pick.value,
        some (Tally.ofPicks runs.length (picks m.cmp stop capacity runs))⟩ := by
  cases stop with
  | atCapacity => exact merge_eq_ok htwo hfan hcapacity true
  | whenRunEnds => exact mergeUntilRunEnds_eq_ok htwo hfan hcapacity

/-- How many picks a step adds at most; as many as its capacity, unless it may be suspended. -/
def MergeStep.reach (cmp : Comparator α) (step : MergeStep) (runs : List (List α)) : Nat :=
  match step.stop with
  | .atCapacity => step.capacity
  | .whenRunEnds => (picks cmp .whenRunEnds step.capacity runs).length

theorem picks_stop_eq_picks_reach (cmp : Comparator α) (step : MergeStep) (runs : List (List α)) :
    picks cmp step.stop step.capacity runs = picks cmp .atCapacity (step.reach cmp runs) runs := by
  rcases step with ⟨stop, capacity⟩
  cases stop with
  | atCapacity => rfl
  | whenRunEnds => exact picks_whenRunEnds (FrontsOf.refl runs) capacity

/-- **A step goes on with the picks of the merge that it is a step of.** -/
theorem resume_after (htwo : 2 ≤ runs.length) (hfan : runs.length ≤ m.fanIn.count)
    {step : MergeStep} (hcapacity : 0 < step.capacity) (n : Nat) :
    m.resume runs (Resumed.after runs (picks m.cmp .atCapacity n runs)) step =
      .ok (Resumed.after runs (picks m.cmp .atCapacity
        (n + step.reach m.cmp (runsAfter runs (picks m.cmp .atCapacity n runs))) runs)) := by
  have hmerge : m.mergeUntil step.stop (runsAfter runs (picks m.cmp .atCapacity n runs))
      step.capacity = _ :=
    mergeUntil_eq_ok (by simpa using htwo) (by simpa using hfan) hcapacity step.stop
  have hadvance : (Progress.after runs (picks m.cmp .atCapacity n runs)).advance
      (Tally.ofPicks runs.length (picks m.cmp step.stop step.capacity
        (runsAfter runs (picks m.cmp .atCapacity n runs)))) = _ :=
    Progress.advance_after fun i => by
      rw [← length_valuesFrom]
      exact (valuesFrom_isPrefix step.stop step.capacity _ i).length_le
  rw [RunMerger.resume, Resumed.after]
  dsimp only
  rw [Progress.remainingRuns_after, hmerge]
  dsimp only
  rw [Option.getD_some, length_runsAfter, hadvance]
  dsimp only
  rw [picks_add, ← picks_stop_eq_picks_reach, Resumed.after, List.map_append]

/-- **Any sequence of steps leads to the state after some picks of the one merge.** -/
theorem foldlM_resume_after (htwo : 2 ≤ runs.length) (hfan : runs.length ≤ m.fanIn.count)
    {steps : List MergeStep} (hsteps : ∀ step ∈ steps, 0 < step.capacity) (n : Nat) :
    ∃ last, steps.foldlM (m.resume runs) (Resumed.after runs (picks m.cmp .atCapacity n runs)) =
        .ok (Resumed.after runs (picks m.cmp .atCapacity last runs)) ∧
      ((∀ step ∈ steps, step.stop = .atCapacity) →
        last = n + sumCounts (steps.map MergeStep.capacity)) := by
  induction steps generalizing n with
  | nil => exact ⟨n, rfl, fun _ => rfl⟩
  | cons step steps ih =>
      rw [List.forall_mem_cons] at hsteps
      obtain ⟨hstep, hrest⟩ := hsteps
      obtain ⟨last, hrun, hplain⟩ :=
        ih hrest (n + step.reach m.cmp (runsAfter runs (picks m.cmp .atCapacity n runs)))
      refine ⟨last, ?_, ?_⟩
      · rw [List.foldlM_cons, resume_after htwo hfan hstep]
        exact hrun
      · intro hstops
        rw [List.forall_mem_cons] at hstops
        obtain ⟨hstop, hstops⟩ := hstops
        rw [hplain hstops, MergeStep.reach, hstop, List.map_cons, sumCounts_cons, Nat.add_assoc]

end Steps

/--
**Steps of any size, suspended or not, together are one merge.** None of them is refused. What
they have put out is what one merge puts out to as many elements, and they have come as far in
each run. As this is said of every sequence of steps, it holds after each step of one.
-/
theorem resumeAll_eq_one_shot
    (m : RunMerger α)
    {runs : List (List α)}
    (htwo : 2 ≤ runs.length)
    (hfan : runs.length ≤ m.fanIn.count)
    {steps : List MergeStep}
    (hsteps : ∀ step ∈ steps, 1 ≤ step.capacity) :
    ∃ s, m.resumeAll runs steps = .ok s ∧
      sumCounts s.progress.offsets = s.output.length ∧
      (s.output.length ≤ maxWord → ∀ o, s.progress.consumed? o = some s.output.length) ∧
      (1 ≤ s.output.length → ∃ tally,
        m.merge runs s.output.length true = .ok ⟨s.output, some tally⟩ ∧
        s.progress.offsets = tally.counts) ∧
      ((∀ step ∈ steps, step.stop = .atCapacity) →
        s.output.length =
          min (sumCounts (steps.map MergeStep.capacity)) runs.flatten.length) := by
  have hslots : runs.length ≤ slotCount := hfan.trans m.fanIn.count_le_slotCount
  obtain ⟨last, hrun, hplain⟩ := foldlM_resume_after htwo hfan hsteps 0
  have hlength : (Resumed.after runs (picks m.cmp .atCapacity last runs)).output.length =
      (picks m.cmp .atCapacity last runs).length := List.length_map _
  have hconsumed : sumCounts (Progress.after runs (picks m.cmp .atCapacity last runs)).offsets =
      (picks m.cmp .atCapacity last runs).length :=
    Progress.sumCounts_offsets_after fun pick hpick => run_lt_of_mem_picks hpick
  refine ⟨Resumed.after runs (picks m.cmp .atCapacity last runs), ?_, ?_, ?_, ?_, ?_⟩
  · rw [RunMerger.resumeAll, Progress.ofRuns_eq_ok hslots]
    exact hrun
  · exact hconsumed.trans hlength.symm
  · intro hword o
    rw [← hconsumed.trans hlength.symm] at hword ⊢
    exact Progress.consumed?_of_le hword o
  · intro hsome
    rw [hlength] at hsome ⊢
    have hmerge := merge_eq_ok (m := m) htwo hfan hsome true
    rw [picks_length_picks] at hmerge
    exact ⟨_, hmerge, Progress.offsets_after⟩
  · intro hstops
    rw [hlength, length_picks, hplain hstops, Nat.zero_add]

theorem resumeAll_of_lawless_steps :
    ∃ s tally,
      (RunMerger.mk Comparator.alwaysBefore .three).resumeAll [[4, 2, 5], [], [3, 6]]
        [⟨.atCapacity, 1⟩, ⟨.whenRunEnds, 5⟩, ⟨.atCapacity, 2⟩] = .ok s ∧
      (RunMerger.mk Comparator.alwaysBefore .three).merge [[4, 2, 5], [], [3, 6]] 4 true =
        .ok ⟨s.output, some tally⟩ ∧
      s.output = [3, 6, 4, 2] ∧
      s.progress.offsets = tally.counts ∧
      tally.counts = [2, 0, 2] := by
  obtain ⟨s, hsteps, -, -, hmerge, -⟩ :=
    resumeAll_eq_one_shot (RunMerger.mk Comparator.alwaysBefore .three)
      (show 2 ≤ [[4, 2, 5], [], [3, 6]].length by decide) (by decide)
      (show ∀ step ∈ [MergeStep.mk .atCapacity 1, ⟨.whenRunEnds, 5⟩, ⟨.atCapacity, 2⟩],
        1 ≤ step.capacity by decide)
  have hrun : (RunMerger.mk Comparator.alwaysBefore .three).resumeAll [[4, 2, 5], [], [3, 6]]
      [⟨.atCapacity, 1⟩, ⟨.whenRunEnds, 5⟩, ⟨.atCapacity, 2⟩] =
        .ok ⟨[3, 6, 4, 2], ⟨[⟨3, 2⟩, ⟨0, 0⟩, ⟨2, 2⟩]⟩⟩ := rfl
  rw [hrun] at hsteps
  obtain rfl := Except.ok.inj hsteps
  obtain ⟨tally, hmerge, hoffsets⟩ := hmerge (by decide)
  exact ⟨_, tally, hrun, hmerge, rfl, hoffsets, hoffsets.symm⟩

end KWayMerge
