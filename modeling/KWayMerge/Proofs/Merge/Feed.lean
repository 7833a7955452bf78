import KWayMerge.Proofs.Merge.Restart
import Mathlib.Logic.Relation

/-!
# Merging runs that come in bit by bit

The caller of a merge may see a front of each run only, and show more of it later. It merges what
can be seen, suspended as soon as a run is used up, and it does not merge while a run that can no
longer be seen has something still to come. Refills and merges may alternate in any way. What is
put out then does not depend on where the runs were cut: it is at all times the front of the one
merge of the whole runs, under any comparator and for runs in any order.

**Results.**
* `Feed.Follows.step`: a refill or a merge keeps the feed on the picks of the one merge.
* `Feed.merge_eq_ok`: a merge that may be made is not refused.
* `feed_follows_one_shot`: the output of every feed that can be reached.
-/

namespace KWayMerge

universe u

variable {α : Type u}

/-! ### Feeds -/

/-- A run that comes in bit by bit: what has been merged, what can be seen, what is to come. -/
structure FedRun (α : Type u) where
  consumed : List α
  visible : List α
  pending : List α
deriving DecidableEq, Repr

namespace FedRun

def whole (run : FedRun α) : List α :=
  run.consumed ++ run.visible ++ run.pending

def unmerged (run : FedRun α) : List α :=
  run.visible ++ run.pending

/-- Shows the next `n` elements of what is to come. -/
def refill (n : Nat) (run : FedRun α) : FedRun α :=
  { run with visible := run.visible ++ run.pending.take n, pending := run.pending.drop n }

/-- Takes the first `n` visible elements away. -/
def consume (n : Nat) (run : FedRun α) : FedRun α :=
  { run with consumed := run.consumed ++ run.visible.take n, visible := run.visible.drop n }

@[simp] theorem whole_refill (n : Nat) (run : FedRun α) : (run.refill n).whole = run.whole := by
  simp [whole, refill]

@[simp] theorem unmerged_refill (n : Nat) (run : FedRun α) :
    (run.refill n).unmerged = run.unmerged := by
  simp [unmerged, refill]

@[simp] theorem whole_consume (n : Nat) (run : FedRun α) : (run.consume n).whole = run.whole := by
  rw [whole, whole, consume]
  dsimp only
  rw [List.append_assoc run.consumed, List.take_append_drop]

theorem unmerged_consume {n : Nat} {run : FedRun α} (h : n ≤ run.visible.length) :
    (run.consume n).unmerged = run.unmerged.drop n := by
  rw [unmerged, unmerged, consume, List.drop_append_of_le_length h]

end FedRun

/-- Runs that come in bit by bit, and what has been put out of them. -/
structure Feed (α : Type u) where
  runs : List (FedRun α)
  output : List α
deriving DecidableEq, Repr

namespace Feed

/-- Shows the next `n` elements of run `i`. -/
def refill (s : Feed α) (i n : Nat) : Feed α :=
  { s with runs := s.runs.modify i (FedRun.refill n) }

/-- Nothing is to come of a run of which nothing can be seen. -/
def Ready (s : Feed α) : Prop :=
  ∀ run ∈ s.runs, run.visible = [] → run.pending = []

/-- Nothing can be seen and nothing is to come. -/
def Drained (s : Feed α) : Prop :=
  ∀ run ∈ s.runs, run.visible = [] ∧ run.pending = []

instance (s : Feed α) : Decidable s.Ready :=
  inferInstanceAs (Decidable (∀ run ∈ s.runs, run.visible = [] → run.pending = []))

instance (s : Feed α) : Decidable s.Drained :=
  inferInstanceAs (Decidable (∀ run ∈ s.runs, run.visible = [] ∧ run.pending = []))

/-- Merges what can be seen, suspended when a run is used up, and takes what the tally counts. -/
def merge (m : RunMerger α) (s : Feed α) (capacity : Nat) : Except Fault (Feed α) :=
  match m.mergeUntilRunEnds (s.runs.map FedRun.visible) capacity with
  | .error fault => .error fault
  | .ok merged =>
      .ok ⟨s.runs.mapIdx fun i run => run.consume ((merged.tally.getD Tally.empty).slot i),
        s.output ++ merged.output⟩

/-- What the caller may do. -/
inductive Step (m : RunMerger α) : Feed α → Feed α → Prop
  | refill (s : Feed α) (i n : Nat) : Step m s (s.refill i n)
  | merge {s t : Feed α} {capacity : Nat} :
      s.Ready → 1 ≤ capacity → s.merge m capacity = .ok t → Step m s t

/-- Nothing has been merged yet of the runs `full`, each of which is cut somewhere. -/
structure Starts (full : List (List α)) (s : Feed α) : Prop where
  whole : s.runs.map FedRun.whole = full
  consumed : ∀ run ∈ s.runs, run.consumed = []
  output : s.output = []

/-- The feed is where the first `n` picks from the runs `full` lead to. -/
structure Follows (cmp : Comparator α) (full : List (List α)) (n : Nat) (s : Feed α) :
    Prop where
  whole : s.runs.map FedRun.whole = full
  unmerged : s.runs.map FedRun.unmerged = runsAfter full (picks cmp .atCapacity n full)
  output : s.output = (picks cmp .atCapacity n full).map Pick.value

variable {m : RunMerger α} {cmp : Comparator α} {full : List (List α)} {n : Nat} {s t : Feed α}

theorem Starts.follows (h : s.Starts full) : s.Follows cmp full 0 := by
  refine ⟨h.whole, ?_, h.output⟩
  rw [picks_zero, runsAfter_nil, ← h.whole]
  refine List.map_congr_left ?_
  intro run hrun
  rw [FedRun.whole, FedRun.unmerged, h.consumed run hrun, List.nil_append]

/-! ### Refills -/

theorem map_refill {β : Type u} {f : FedRun α → β} {n : Nat} (h : ∀ run, f (run.refill n) = f run)
    (s : Feed α) (i : Nat) : (s.refill i n).runs.map f = s.runs.map f := by
  refine List.ext_getElem (by simp [Feed.refill]) ?_
  intro j hj hj'
  rw [List.getElem_map, List.getElem_map]
  simp only [Feed.refill, List.getElem_modify]
  split
  · exact h _
  · rfl

theorem Follows.refill (h : s.Follows cmp full n) (i count : Nat) :
    (s.refill i count).Follows cmp full n := by
  refine ⟨?_, ?_, h.output⟩
  · rw [map_refill (FedRun.whole_refill count), h.whole]
  · rw [map_refill (FedRun.unmerged_refill count), h.unmerged]

/-! ### Merges -/

/-- Of a feed that is ready, what can be seen decides on the next head. -/
theorem Ready.frontsOf (h : s.Ready) :
    FrontsOf (s.runs.map FedRun.visible) (s.runs.map FedRun.unmerged) := by
  refine ⟨by simp, ?_, ?_⟩
  · intro i
    simp only [List.getD_eq_getElem?_getD, List.getElem?_map]
    cases s.runs[i]? with
    | none => exact List.prefix_refl _
    | some run => exact List.prefix_append run.visible run.pending
  · intro i hi
    simp only [List.getD_eq_getElem?_getD, List.getElem?_map] at hi ⊢
    cases hrun : s.runs[i]? with
    | none => rfl
    | some run =>
        rw [hrun] at hi
        have hvisible : run.visible = [] := hi
        have hpending := h run (List.mem_of_getElem? hrun) hvisible
        simp [FedRun.unmerged, hvisible, hpending]

/-- The feed after a merge that took these picks. -/
def afterPicks (s : Feed α) (taken : List (Pick α)) : Feed α :=
  ⟨s.runs.mapIdx fun i run => run.consume ((Tally.ofPicks s.runs.length taken).slot i),
    s.output ++ taken.map Pick.value⟩

/-- **A merge of what can be seen is not refused.** -/
theorem merge_eq_ok (htwo : 2 ≤ s.runs.length) (hfan : s.runs.length ≤ m.fanIn.count)
    {capacity : Nat} (hcapacity : 0 < capacity) :
    s.merge m capacity =
      .ok (s.afterPicks (picks m.cmp .whenRunEnds capacity (s.runs.map FedRun.visible))) := by
  rw [Feed.merge, mergeUntilRunEnds_eq_ok (by simpa using htwo) (by simpa using hfan) hcapacity,
    afterPicks, List.length_map]
  rfl

theorem map_whole_afterPicks (taken : List (Pick α)) :
    (s.afterPicks taken).runs.map FedRun.whole = s.runs.map FedRun.whole := by
  refine List.ext_getElem (by simp [afterPicks]) ?_
  intro i hi hi'
  simp [afterPicks]

/-- What a merge takes away from each run that can be seen is the front of what is unmerged. -/
theorem map_unmerged_afterPicks (stop : StopRule) (capacity : Nat) :
    (s.afterPicks (picks cmp stop capacity (s.runs.map FedRun.visible))).runs.map
        FedRun.unmerged =
      runsAfter (s.runs.map FedRun.unmerged)
        (picks cmp stop capacity (s.runs.map FedRun.visible)) := by
  refine List.ext_getElem (by simp [afterPicks]) ?_
  intro i hi hi'
  have hlt : i < s.runs.length := by simpa using hi'
  have hcount : (picks cmp stop capacity (s.runs.map FedRun.visible)).countP
      (fun pick => pick.run == i) ≤ s.runs[i].visible.length := by
    have hprefix : valuesFrom i (picks cmp stop capacity (s.runs.map FedRun.visible)) <+:
        (s.runs.map FedRun.visible).getD i [] := valuesFrom_isPrefix _ _ _ _
    rw [List.getD_eq_getElem _ _ (by simpa using hlt), List.getElem_map] at hprefix
    rw [← length_valuesFrom]
    exact hprefix.length_le
  simp only [afterPicks, List.getElem_map, List.getElem_mapIdx, runsAfter, Tally.slot_ofPicks,
    hlt, if_true]
  exact FedRun.unmerged_consume hcount

/-- **A merge of a feed that is ready takes the next picks from the whole runs.** -/
theorem Follows.merge (h : s.Follows m.cmp full n) (hready : s.Ready) (capacity : Nat) :
    (s.afterPicks (picks m.cmp .whenRunEnds capacity (s.runs.map FedRun.visible))).Follows
      m.cmp full
      (n + (picks m.cmp .whenRunEnds capacity (s.runs.map FedRun.visible)).length) := by
  have hnext : picks m.cmp .atCapacity
      (n + (picks m.cmp .whenRunEnds capacity (s.runs.map FedRun.visible)).length) full =
        picks m.cmp .atCapacity n full ++
          picks m.cmp .whenRunEnds capacity (s.runs.map FedRun.visible) := by
    rw [picks_add, ← h.unmerged, ← picks_whenRunEnds hready.frontsOf]
  constructor
  · rw [map_whole_afterPicks, h.whole]
  · rw [map_unmerged_afterPicks, hnext, runsAfter_append, h.unmerged]
  · rw [hnext, List.map_append, ← h.output, afterPicks]

/-- A merge takes something as long as something can be seen. -/
theorem picks_whenRunEnds_pos {runs : List (List α)} (hruns : runs.flatten ≠ []) {capacity : Nat}
    (hcapacity : 0 < capacity) : 0 < (picks cmp .whenRunEnds capacity runs).length := by
  obtain ⟨capacity, rfl⟩ := Nat.exists_eq_succ_of_ne_zero (Nat.ne_of_gt hcapacity)
  rw [picks_succ]
  cases hfront : front? cmp runs with
  | none => exact absurd (front?_eq_none_iff.1 hfront) hruns
  | some pick => simp

theorem Ready.drained (h : s.Ready) (hvisible : (s.runs.map FedRun.visible).flatten = []) :
    s.Drained := by
  intro run hrun
  have hempty : run.visible = [] :=
    List.flatten_eq_nil_iff.1 hvisible run.visible (List.mem_map_of_mem hrun)
  exact ⟨hempty, h run hrun hempty⟩

/-! ### Steps and sequences of them -/

theorem Follows.length_runs (h : s.Follows cmp full n) : s.runs.length = full.length := by
  rw [← h.whole, List.length_map]

/-- **A step keeps the feed on the picks of the one merge.** -/
theorem Follows.step (htwo : 2 ≤ full.length) (hfan : full.length ≤ m.fanIn.count)
    (h : s.Follows m.cmp full n) (hstep : Step m s t) : ∃ n', t.Follows m.cmp full n' := by
  cases hstep with
  | refill i count => exact ⟨n, h.refill i count⟩
  | merge hready hcapacity hmerge =>
      rw [merge_eq_ok (h.length_runs ▸ htwo) (h.length_runs ▸ hfan) hcapacity] at hmerge
      obtain rfl := Except.ok.inj hmerge
      exact ⟨_, h.merge hready _⟩

theorem follows_of_reachable (htwo : 2 ≤ full.length) (hfan : full.length ≤ m.fanIn.count)
    {start : Feed α} (hstart : start.Starts full)
    (hreach : Relation.ReflTransGen (Step m) start s) : ∃ n, s.Follows m.cmp full n := by
  induction hreach with
  | refl => exact ⟨0, hstart.follows⟩
  | tail _ hstep ih =>
      obtain ⟨n, h⟩ := ih
      exact h.step htwo hfan hstep

/-- Once nothing can be seen and nothing is to come, all picks have been made. -/
theorem Follows.length_output_of_drained (h : s.Follows cmp full n) (hdrained : s.Drained) :
    s.output.length = full.flatten.length := by
  have hnothing : (runsAfter full (picks cmp .atCapacity n full)).flatten = [] := by
    rw [← h.unmerged, List.flatten_eq_nil_iff]
    rintro _ hrun
    obtain ⟨run, hmem, rfl⟩ := List.mem_map.1 hrun
    obtain ⟨hvisible, hpending⟩ := hdrained run hmem
    rw [FedRun.unmerged, hvisible, hpending, List.append_nil]
  rw [h.output, List.length_map]
  exact length_picks_of_runsAfter_eq_nil hnothing

end Feed

/--
**What a feed has put out is the front of the one merge of the whole runs**, wherever they were
cut and in whatever order they were refilled and merged, and the whole of it once nothing is left.
A merge that may be made is never refused, and it puts something out as long as something is left.
-/
theorem feed_follows_one_shot
    (m : RunMerger α)
    {full : List (List α)}
    (htwo : 2 ≤ full.length)
    (hfan : full.length ≤ m.fanIn.count)
    {start s : Feed α}
    (hstart : start.Starts full)
    (hreach : Relation.ReflTransGen (Feed.Step m) start s) :
    s.runs.map FedRun.whole = full ∧
    (∀ capacity, 1 ≤ capacity → full.flatten.length ≤ capacity → ∃ merged,
      m.merge full capacity true = .ok merged ∧
      s.output = merged.output.take s.output.length ∧
      (s.Drained → s.output = merged.output)) ∧
    (s.Ready → ∀ capacity, 1 ≤ capacity → ∃ t,
      s.merge m capacity = .ok t ∧
      (¬s.Drained → s.output.length < t.output.length)) := by
  obtain ⟨n, h⟩ := Feed.follows_of_reachable htwo hfan hstart hreach
  refine ⟨h.whole, ?_, ?_⟩
  · intro capacity hcapacity hall
    have hfront : s.output =
        ((picks m.cmp .atCapacity capacity full).map Pick.value).take s.output.length := by
      have hle : (picks m.cmp .atCapacity n full).length ≤ capacity := by
        rw [length_picks]
        omega
      rw [h.output, ← List.map_take, List.length_map, take_picks, Nat.min_eq_left hle,
        picks_length_picks]
    refine ⟨_, merge_eq_ok htwo hfan hcapacity true, hfront, ?_⟩
    intro hdrained
    have hlength : ((picks m.cmp .atCapacity capacity full).map Pick.value).length =
        s.output.length := by
      rw [List.length_map, length_picks, h.length_output_of_drained hdrained,
        Nat.min_eq_right hall]
    rw [← hlength, List.take_length] at hfront
    exact hfront
  · intro hready capacity hcapacity
    refine ⟨_, Feed.merge_eq_ok (h.length_runs ▸ htwo) (h.length_runs ▸ hfan) hcapacity, ?_⟩
    intro hleft
    have hvisible : (s.runs.map FedRun.visible).flatten ≠ [] := fun hempty =>
      hleft (hready.drained hempty)
    have hpos : 0 < (picks m.cmp .whenRunEnds capacity (s.runs.map FedRun.visible)).length :=
      Feed.picks_whenRunEnds_pos hvisible hcapacity
    rw [Feed.afterPicks, List.length_append, List.length_map]
    omega

/-- Two runs, each cut before its last elements. -/
def cutFeed : Feed Nat :=
  ⟨[⟨[], [4], [2, 5]⟩, ⟨[], [3, 6], [7]⟩], []⟩

def lawlessMerger : RunMerger Nat :=
  ⟨Comparator.alwaysBefore, .two⟩

theorem cutFeed_follows_one_shot :
    ∃ s,
      Relation.ReflTransGen (Feed.Step lawlessMerger) cutFeed s ∧
      s.Drained ∧
      s.output = [3, 6, 7, 4, 2, 5] ∧
      ∃ merged, lawlessMerger.merge [[4, 2, 5], [3, 6, 7]] 6 true = .ok merged ∧
        s.output = merged.output := by
  have hstart : cutFeed.Starts [[4, 2, 5], [3, 6, 7]] := ⟨rfl, by decide, rfl⟩
  -- suspended twice at the end of what can be seen of the second run
  have hfirst : Feed.Step lawlessMerger cutFeed
      ⟨[⟨[], [4], [2, 5]⟩, ⟨[3, 6], [], [7]⟩], [3, 6]⟩ :=
    .merge (by decide) (by decide) (show cutFeed.merge lawlessMerger 9 = _ from rfl)
  have hshown : Feed.Step lawlessMerger ⟨[⟨[], [4], [2, 5]⟩, ⟨[3, 6], [], [7]⟩], [3, 6]⟩
      ⟨[⟨[], [4], [2, 5]⟩, ⟨[3, 6], [7], []⟩], [3, 6]⟩ :=
    .refill _ 1 1
  have hsecond : Feed.Step lawlessMerger ⟨[⟨[], [4], [2, 5]⟩, ⟨[3, 6], [7], []⟩], [3, 6]⟩
      ⟨[⟨[], [4], [2, 5]⟩, ⟨[3, 6, 7], [], []⟩], [3, 6, 7]⟩ :=
    .merge (by decide) (by decide) (show Feed.merge lawlessMerger _ 2 = _ from rfl)
  have hshown' : Feed.Step lawlessMerger ⟨[⟨[], [4], [2, 5]⟩, ⟨[3, 6, 7], [], []⟩], [3, 6, 7]⟩
      ⟨[⟨[], [4, 2, 5], []⟩, ⟨[3, 6, 7], [], []⟩], [3, 6, 7]⟩ :=
    .refill _ 0 2
  have hthird : Feed.Step lawlessMerger
      ⟨[⟨[], [4, 2, 5], []⟩, ⟨[3, 6, 7], [], []⟩], [3, 6, 7]⟩
      ⟨[⟨[4, 2, 5], [], []⟩, ⟨[3, 6, 7], [], []⟩], [3, 6, 7, 4, 2, 5]⟩ :=
    .merge (by decide) (by decide) (show Feed.merge lawlessMerger _ 3 = _ from rfl)
  have hreach := ((((Relation.ReflTransGen.single hfirst).tail hshown).tail hsecond).tail
    hshown').tail hthird
  obtain ⟨-, hwhole, -⟩ :=
    feed_follows_one_shot lawlessMerger (show 2 ≤ [[4, 2, 5], [3, 6, 7]].length by decide)
      (by decide) hstart hreach
  obtain ⟨merged, hmerge, -, houtput⟩ := hwhole 6 (by decide) (by decide)
  exact ⟨_, hreach, by decide, rfl, merged, hmerge, houtput (by decide)⟩

end KWayMerge
