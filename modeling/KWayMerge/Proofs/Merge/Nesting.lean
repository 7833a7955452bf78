import KWayMerge.Proofs.Merge.HeadMerge
import Mathlib.Algebra.Order.BigOperators.Group.List

/-!
# Nested merges

Several runs may be merged at once, or some adjacent ones first and what comes of them later. A
nesting says how: it is a tree whose leaves, from left to right, are the runs. Under a total
preorder every nesting of the same runs gives the same elements in the same order, those of the
merge of all at once, although each merge inside it is cut off at the capacity and whatever the
order in the runs. Under any comparator a run may be cut off at the capacity beforehand.

**Results.**
* `mergeNested_eq_ok`: the merges of a nesting put out the front of the head merge of its runs.
* `fits_of_length_runs_le`: a nesting of few runs has no merge of many.
* `mergeNested_eq_merge`: a nesting puts out what one merge of its runs does.
-/

namespace KWayMerge

universe u

variable {α : Type u}

/-- Runs in a tree of merges: a run as it is, or a merge of as many parts as the fan-in says. -/
inductive Nesting (α : Type u) where
  | run (elements : List α)
  | merge (arity : FanIn) (parts : Fin arity.count → Nesting α)

namespace Nesting

/-- The runs of a nesting, from left to right. -/
def runs : Nesting α → List (List α)
  | .run elements => [elements]
  | .merge _ parts => (List.ofFn fun i => (parts i).runs).flatten

/-- No merge of the nesting has more parts than this fan-in. -/
def Fits (f : FanIn) : Nesting α → Prop
  | .run _ => True
  | .merge arity parts => arity.count ≤ f.count ∧ ∀ i, (parts i).Fits f

theorem length_runs_pos (nesting : Nesting α) : 0 < nesting.runs.length := by
  induction nesting with
  | run elements => exact Nat.one_pos
  | merge arity parts ih =>
      have hfirst : 0 < arity.count := Nat.zero_lt_two.trans_le arity.two_le_count
      have hmem : (parts ⟨0, hfirst⟩).runs ∈ List.ofFn fun i => (parts i).runs :=
        List.mem_ofFn.2 ⟨⟨0, hfirst⟩, rfl⟩
      exact (ih ⟨0, hfirst⟩).trans_le (List.sublist_flatten_of_mem hmem).length_le

/-- A merge has at most as many parts as its nesting has runs. -/
theorem count_le_length_runs (arity : FanIn) (parts : Fin arity.count → Nesting α) :
    arity.count ≤ (merge arity parts).runs.length := by
  have hparts : ∀ n ∈ (List.ofFn fun i => (parts i).runs).map List.length, 1 ≤ n := by
    rw [List.map_ofFn, List.forall_mem_ofFn_iff]
    intro i
    exact length_runs_pos (parts i)
  have hle := List.length_le_sum_of_one_le _ hparts
  rw [List.length_map, List.length_ofFn] at hle
  rwa [runs, List.length_flatten]

theorem length_runs_part_le (arity : FanIn) (parts : Fin arity.count → Nesting α)
    (i : Fin arity.count) : (parts i).runs.length ≤ (merge arity parts).runs.length := by
  have hmem : (parts i).runs ∈ List.ofFn fun i => (parts i).runs := List.mem_ofFn.2 ⟨i, rfl⟩
  exact (List.sublist_flatten_of_mem hmem).length_le

/-- **A nesting of no more runs than the fan-in has no merge of more.** -/
theorem fits_of_length_runs_le {f : FanIn} {nesting : Nesting α}
    (h : nesting.runs.length ≤ f.count) : nesting.Fits f := by
  induction nesting with
  | run elements => trivial
  | merge arity parts ih =>
      refine ⟨(count_le_length_runs arity parts).trans h, ?_⟩
      intro i
      exact ih i ((length_runs_part_le arity parts i).trans h)

end Nesting

namespace RunMerger

/-- Carries out the merges of a nesting, each up to the same capacity. -/
def mergeNested (m : RunMerger α) (capacity : Nat) : Nesting α → Except Fault (List α)
  | .run elements => .ok elements
  | .merge _ parts => do
      let outputs ← List.ofFnM fun i => m.mergeNested capacity (parts i)
      let merged ← m.merge outputs capacity false
      pure merged.output

end RunMerger

theorem ofFnM_eq_ok {β : Type u} {n : Nat} {act : Fin n → Except Fault β} {outs : Fin n → β}
    (h : ∀ i, act i = .ok (outs i)) : List.ofFnM act = .ok (List.ofFn outs) := by
  have hact : act = fun i => pure (outs i) := funext h
  rw [hact]
  exact List.ofFnM_pure

section Preorder

variable {m : RunMerger α} [Std.TransCmp m.cmp] {capacity : Nat}

/-- The parts of a merge may be merged beforehand, and be known up to the capacity only. -/
theorem take_headMerge_ofFn {n : Nat} {groups : Fin n → List (List α)} {outs : Fin n → List α}
    (h : ∀ i, (outs i).take capacity = (headMerge m.cmp (groups i)).take capacity) :
    (headMerge m.cmp (List.ofFn outs)).take capacity =
      (headMerge m.cmp (List.ofFn groups).flatten).take capacity := by
  have hgroups : headMerge m.cmp ((List.ofFn groups).map (headMerge m.cmp)) =
      headMerge m.cmp (List.ofFn groups).flatten := headMerge_append_map_headMerge [] _
  rw [← hgroups]
  refine take_headMerge_eq_of_map_take_eq ?_
  rw [List.map_map, List.map_ofFn, List.map_ofFn]
  congr 1
  funext i
  exact h i

/-- **The merges of a nesting put out the front of the head merge of its runs.** -/
theorem mergeNested_eq_ok (hcapacity : 0 < capacity) {nesting : Nesting α}
    (hfits : nesting.Fits m.fanIn) :
    ∃ out, m.mergeNested capacity nesting = .ok out ∧
      out.take capacity = (headMerge m.cmp nesting.runs).take capacity ∧
      (2 ≤ nesting.runs.length → out.length ≤ capacity) := by
  induction nesting with
  | run elements =>
      refine ⟨elements, rfl, ?_, ?_⟩
      · rw [Nesting.runs, headMerge_singleton]
      · intro htwo
        simp [Nesting.runs] at htwo
  | merge arity parts ih =>
      obtain ⟨hcount, hparts⟩ := hfits
      choose outs hrun hfront _ using fun i => ih i (hparts i)
      have hmerge : m.merge (List.ofFn outs) capacity false =
          .ok ⟨(picks m.cmp .atCapacity capacity (List.ofFn outs)).map Pick.value, none⟩ :=
        merge_eq_ok (by simpa using arity.two_le_count) (by simpa using hcount) hcapacity false
      refine ⟨(picks m.cmp .atCapacity capacity (List.ofFn outs)).map Pick.value, ?_, ?_, ?_⟩
      · rw [RunMerger.mergeNested, ofFnM_eq_ok hrun]
        change m.merge (List.ofFn outs) capacity false >>= _ = _
        rw [hmerge]
        rfl
      · rw [map_value_picks, List.take_take, Nat.min_self, Nesting.runs]
        exact take_headMerge_ofFn hfront
      · intro _
        rw [List.length_map, length_picks]
        exact Nat.min_le_left _ _

end Preorder

/--
**However merges of adjacent runs are nested, each cut off at the capacity, they put out what one
merge of all runs does**, for runs in any order and with like elements in the same order. Under
any comparator, cutting off the runs at the capacity changes neither the output nor the tally.
-/
theorem mergeNested_eq_merge
    (m : RunMerger α)
    {capacity : Nat}
    (hcapacity : 1 ≤ capacity) :
    (Std.TransCmp m.cmp → ∀ nesting : Nesting α,
      2 ≤ nesting.runs.length →
      nesting.runs.length ≤ m.fanIn.count →
      ∀ track, ∃ merged,
        m.merge nesting.runs capacity track = .ok merged ∧
        m.mergeNested capacity nesting = .ok merged.output) ∧
    ∀ (runs : List (List α)) track,
      m.merge (runs.map (List.take capacity)) capacity track = m.merge runs capacity track := by
  constructor
  · intro _ nesting htwo hfan track
    obtain ⟨out, hrun, hfront, hshort⟩ :=
      mergeNested_eq_ok hcapacity (Nesting.fits_of_length_runs_le hfan)
    refine ⟨_, merge_eq_ok htwo hfan hcapacity track, ?_⟩
    rw [hrun, map_value_picks, ← hfront, List.take_of_length_le (hshort htwo)]
  · intro runs track
    rw [RunMerger.merge, RunMerger.merge, List.length_map, picks_map_take]
    cases track with
    | false => rfl
    | true => simp only [RunMerger.tallyIf, List.length_map]

/-- Four runs, of which the two in the middle are merged before all others. -/
def middleFirst : Nesting Nat :=
  .merge .three
    ![.run [25, 10, 1], .merge .two ![.run [12, 3, 0], .run [11]], .run [2, 20]]

theorem mergeNested_of_disordered_runs :
    ∃ merged,
      (RunMerger.mk Comparator.byTens .four).merge [[25, 10, 1], [12, 3, 0], [11], [2, 20]] 2
        true = .ok merged ∧
      (RunMerger.mk Comparator.byTens .four).mergeNested 2 middleFirst = .ok merged.output ∧
      (RunMerger.mk Comparator.byTens .four).merge [[25, 10], [12, 3], [11], [2, 20]] 2
        true = .ok merged ∧
      merged.output = [2, 12] := by
  obtain ⟨hnested, hcut⟩ :=
    mergeNested_eq_merge (RunMerger.mk Comparator.byTens .four) (show 1 ≤ 2 by decide)
  have hruns : middleFirst.runs = [[25, 10, 1], [12, 3, 0], [11], [2, 20]] := rfl
  obtain ⟨merged, hmerge, hsame⟩ :=
    hnested inferInstance middleFirst (by rw [hruns]; decide) (by rw [hruns]; decide) true
  rw [hruns] at hmerge
  have hrun : (RunMerger.mk Comparator.byTens .four).merge
      [[25, 10, 1], [12, 3, 0], [11], [2, 20]] 2 true =
        .ok ⟨[2, 12], some ⟨[0, 1, 0, 1]⟩⟩ := rfl
  have hshort := hcut [[25, 10, 1], [12, 3, 0], [11], [2, 20]] true
  rw [hmerge] at hshort
  rw [hrun] at hmerge
  obtain rfl := Except.ok.inj hmerge
  exact ⟨_, hrun, hsame, hshort, rfl⟩

end KWayMerge
