import KWayMerge.Proofs.Buffer.Calls
import KWayMerge.Proofs.Buffer.Layout
import KWayMerge.Proofs.Merge.Progress

/-!
# What a selection reports

The report of a selection follows its plan: a request that has been cut down, the rounds in turn,
the tail blocks that are about to be folded, and the folds in turn. How many elements a fold takes
from the front and how many from the block hangs on the comparator and on the elements. How many it
takes from both does not, since a fold takes as many as it may, and neither does anything else in
the report.

**Results.**
* `reported_foldEvent`: a fold takes as many elements as it may.
* `Plan.sumCounts_dropped`: how many elements all folds of a plan leave.
* `exists_events_selectInPlace`: the report of a selection of something.
* `map_withoutShares_events`: what every selection by the same plan reports.
* `selectInPlace_report`: all of this of a selection that is accepted.
-/

namespace KWayMerge

variable {α : Type}

/-! ### What a report says of a fold -/

namespace Event

/-- How many elements a fold has left. -/
def dropped : Event → Nat
  | .fold _ _ _ dropped => dropped
  | _ => 0

/-- The event without what a fold has taken from the front and what from the block. -/
def withoutShares : Event → Event
  | .fold offset _ _ dropped => .fold offset 0 0 dropped
  | event => event

end Event

namespace PlanFold

/-- How many of the elements that a fold reads it leaves. -/
def dropped (s : PlanFold) : Nat :=
  s.gathered + s.runLen - s.capacity

/--
The report of a fold that takes as many elements as it may, some from the front and some from the
block, of those that it reads.
-/
inductive Reported (s : PlanFold) : Event → Prop where
  | mk {fromFront fromBlock : Nat}
      (front_le : fromFront ≤ s.gathered)
      (block_le : fromBlock ≤ s.runLen)
      (taken : fromFront + fromBlock = s.capacity)
      (capacity_le : s.capacity ≤ s.gathered + s.runLen) :
      Reported s (.fold s.offset fromFront fromBlock s.dropped)

/-- What is known of the report of a fold before it is carried out. -/
def announcement (s : PlanFold) : Event :=
  .fold s.offset 0 0 s.dropped

theorem Reported.dropped_eq {s : PlanFold} {event : Event} (h : s.Reported event) :
    event.dropped = s.dropped := by
  cases h with
  | mk _ _ _ _ => rfl

theorem Reported.withoutShares_eq {s : PlanFold} {event : Event} (h : s.Reported event) :
    event.withoutShares = s.announcement := by
  cases h with
  | mk _ _ _ _ => rfl

/-- What is read alike off each fold and its report is read alike off all of them. -/
theorem map_eq_of_reported {β : Type} {ofEvent : Event → β} {ofFold : PlanFold → β}
    (halike : ∀ {s : PlanFold} {event : Event}, s.Reported event → ofEvent event = ofFold s)
    {folds : List PlanFold} {events : List Event} (h : List.Forall₂ Reported folds events) :
    events.map ofEvent = folds.map ofFold := by
  induction h with
  | nil => rfl
  | cons hfold _ ih => rw [List.map_cons, List.map_cons, halike hfold, ih]

end PlanFold

/-! ### What a fold takes -/

section Taken

variable {cmp : Comparator α} {k : Nat}

theorem slot_ofPicks_picks_le (runs : List (List α)) (i : Nat) :
    (Tally.ofPicks runs.length (picks cmp .atCapacity k runs)).slot i ≤
      min (runs.getD i []).length k := by
  rw [slot_ofPicks_picks, le_min_iff]
  constructor
  · rw [← length_valuesFrom]
    exact (valuesFrom_isPrefix .atCapacity k runs i).length_le
  · refine List.countP_le_length.trans ?_
    rw [length_picks]
    exact Nat.min_le_left _ _

theorem total_ofPicks_picks (runs : List (List α)) :
    (Tally.ofPicks runs.length (picks cmp .atCapacity k runs)).total =
      min k runs.flatten.length := by
  rw [Tally.total_ofPicks_of_forall_lt fun _ h => run_lt_of_mem_picks h, length_picks]

theorem total_ofPicks_two (taken : List (Pick α)) :
    (Tally.ofPicks 2 taken).total =
      (Tally.ofPicks 2 taken).slot 0 + (Tally.ofPicks 2 taken).slot 1 :=
  rfl

/-- **A fold takes as many elements as it may.** -/
theorem reported_foldEvent (cmp : Comparator α) (k : Nat) (front block : List α) :
    (Plan.foldOf k front block).Reported (foldEvent cmp k front block) := by
  have htotal : (Tally.ofPicks 2 (picks cmp .atCapacity k [front, block])).total =
      (Plan.foldOf k front block).capacity := by
    have hall : (Tally.ofPicks 2 (picks cmp .atCapacity k [front, block])).total =
        min k [front, block].flatten.length := total_ofPicks_picks [front, block]
    rw [hall, Plan.foldOf, List.flatten_cons, List.flatten_singleton, List.length_append]
    dsimp only
    omega
  rw [foldEvent, htotal]
  refine .mk ?_ ?_ ?_ ?_
  · exact slot_ofPicks_picks_le [front, block] 0
  · exact slot_ofPicks_picks_le [front, block] 1
  · rw [← htotal, total_ofPicks_two]
  · exact Nat.min_le_left _ _

/-- **Each fold of a plan is reported in its turn.** -/
theorem forall₂_reported_foldEvents (cmp : Comparator α) (k : Nat) (front : List α)
    (blocks : List (List α)) :
    List.Forall₂ PlanFold.Reported
      (Plan.foldsFrom k front.length (min front.length k) (blocks.map List.length))
      (foldEvents cmp k front blocks) := by
  -- what a fold gathers is the front of the next, and only its length is planned
  induction blocks generalizing front with
  | nil => exact List.Forall₂.nil
  | cons block blocks ih =>
      rw [List.map_cons, Plan.foldsFrom_gather cmp]
      exact List.Forall₂.cons (reported_foldEvent cmp k front block)
        (ih (gather cmp k [front, block]))

end Taken

/-! ### What the folds of a plan leave -/

namespace Plan

theorem map_blockLen_foldsOf (k : Nat) (lens : List Nat) :
    (foldsOf k lens).map PlanFold.blockLen = lens.tail := by
  have hfrom : ∀ (offset gathered : Nat) (others : List Nat),
      (foldsFrom k offset gathered others).map PlanFold.blockLen = others := by
    intro offset gathered others
    induction others generalizing offset gathered with
    | nil => rfl
    | cons len others ih => rw [foldsFrom, List.map_cons, ih]
  cases lens with
  | nil => rfl
  | cons first others => exact hfrom first (min first k) others

theorem isEmpty_foldsOf (k : Nat) (lens : List Nat) :
    (foldsOf k lens).isEmpty = true ↔ lens.length < 2 := by
  rw [List.isEmpty_iff_length_eq_zero, ← List.length_map PlanFold.blockLen, map_blockLen_foldsOf,
    List.length_tail]
  omega

/-- What counts of all blocks is either gathered in the end or left by one of the folds. -/
theorem sumCounts_dropped_foldsFrom {k gathered : Nat} (hgathered : gathered ≤ k) (offset : Nat)
    (lens : List Nat) :
    sumCounts ((foldsFrom k offset gathered lens).map PlanFold.dropped) +
        min (gathered + sumCounts lens) k =
      gathered + sumCounts (lens.map fun len => min len k) := by
  -- what one fold has gathered, and not what it has left, goes into the next
  induction lens generalizing offset gathered with
  | nil =>
      rw [foldsFrom, List.map_nil, List.map_nil, sumCounts_nil, Nat.zero_add, Nat.add_zero,
        Nat.min_eq_left hgathered]
  | cons len lens ih =>
      have hrest := ih (Nat.min_le_right (gathered + min len k) k) (offset + len)
      have hdropped : PlanFold.dropped
          ⟨offset, len, min len k, gathered, min (gathered + min len k) k⟩ +
            min (gathered + min len k) k = gathered + min len k :=
        Nat.sub_add_cancel (Nat.min_le_left _ _)
      rw [foldsFrom, List.map_cons, List.map_cons, sumCounts_cons, sumCounts_cons, sumCounts_cons]
      omega

/-- **How many elements all folds of a plan leave.** -/
theorem sumCounts_dropped (k : Nat) (lens : List Nat) :
    sumCounts ((foldsOf k lens).map PlanFold.dropped) + min (sumCounts lens) k =
      sumCounts (lens.map fun len => min len k) := by
  cases lens with
  | nil => exact Nat.zero_min k
  | cons first others =>
      have hfrom := sumCounts_dropped_foldsFrom (Nat.min_le_right first k) first others
      rw [foldsOf, List.map_cons, sumCounts_cons, sumCounts_cons]
      omega

theorem remainderEvents_ofBlocks (total blockLen k : Nat) (f : FanIn) :
    (ofBlocks total blockLen k f).remainderEvents =
      if 2 ≤ (ofBlocks total blockLen k f).tailBlocks.length then
        [.foldingRemainder (ofBlocks total blockLen k f).tailBlocks]
      else
        [] := by
  have hempty : (ofBlocks total blockLen k f).folds.isEmpty = true ↔
      (ofBlocks total blockLen k f).tailBlocks.length < 2 := isEmpty_foldsOf k _
  rw [remainderEvents]
  split
  · next h => rw [if_neg (Nat.not_le_of_lt (hempty.1 h))]
  · next h => rw [if_pos (Nat.le_of_not_lt fun hlt => h (hempty.2 hlt))]

/-- **The rounds of a plan are reported in turn, each with its level.** -/
theorem roundEvents_ofBlocks {blockLen : Nat} (hblock : 0 < blockLen) (total k : Nat) (f : FanIn) :
    (ofBlocks total blockLen k f).roundEvents =
      (List.range (ofBlocks total blockLen k f).rounds.length).map fun r =>
        .plannedRound r (levelLen blockLen f r) (total / levelLen blockLen f (r + 1))
          (min (levelLen blockLen f (r + 1)) k) := by
  obtain ⟨last, -, hlevels⟩ := exists_levels_eq hblock total f
  rw [roundEvents, rounds_ofBlocks k hlevels, List.length_map, List.length_range, List.map_map]
  refine List.map_congr_left ?_
  intro r _
  rw [Function.comp_apply, PlanRound.event, roundOf, levelLen_succ]

theorem clampEvents_ofBlocks (total blockLen k : Nat) (f : FanIn) :
    (ofBlocks total blockLen (min k total) f).clampEvents k =
      if total < k then [.clamped k (min k total)] else [] := by
  have hclamp : min k total < k ↔ total < k := by omega
  rw [clampEvents, k_ofBlocks]
  simp only [hclamp]

/-- What is known of the report of a plan before it is carried out. -/
def announcements (requested : Nat) (p : Plan) : List Event :=
  p.clampEvents requested ++
    if p.k = 0 then
      []
    else
      p.roundEvents ++ (p.remainderEvents ++ p.folds.map PlanFold.announcement)

theorem map_withoutShares_clampEvents (requested : Nat) (p : Plan) :
    (p.clampEvents requested).map Event.withoutShares = p.clampEvents requested := by
  rw [clampEvents]
  split
  · rfl
  · rfl

theorem map_withoutShares_roundEvents (p : Plan) :
    p.roundEvents.map Event.withoutShares = p.roundEvents := by
  rw [roundEvents, List.map_map]
  rfl

theorem map_withoutShares_remainderEvents (p : Plan) :
    p.remainderEvents.map Event.withoutShares = p.remainderEvents := by
  rw [remainderEvents]
  split
  · rfl
  · rfl

end Plan

/-! ### The report of a selection -/

section Report

variable (m : RunMerger α) {blockLen totalLen k : Nat} {buffer : List α}

/-- **The report of a selection of something.** -/
theorem exists_events_selectInPlace (hblock : 0 < blockLen) (htotal : totalLen ≤ buffer.length)
    (hk : 0 < min k totalLen) {plan : Plan}
    (hplan : plan = Plan.ofBlocks totalLen blockLen (min k totalLen) m.fanIn) :
    ∃ folded,
      List.Forall₂ PlanFold.Reported plan.folds folded ∧
      ((m.selectInPlace blockLen totalLen k).run buffer).events =
        plan.clampEvents k ++ (plan.roundEvents ++ (plan.remainderEvents ++ folded)) := by
  obtain ⟨front, blocks, -, hlengths, hrun⟩ := run_selectInPlace m hblock htotal hk hplan
  have hfolds : plan.folds = Plan.foldsOf (min k totalLen) ((front :: blocks).map List.length) := by
    rw [hlengths, hplan]
    rfl
  refine ⟨foldEvents m.cmp (min k totalLen) front blocks, ?_, ?_⟩
  · rw [hfolds]
    exact forall₂_reported_foldEvents m.cmp (min k totalLen) front blocks
  · rw [hrun]

/-- **All selections by the same plan report the same, but for the shares of the folds.** -/
theorem map_withoutShares_events (hblock : 0 < blockLen) (htotal : totalLen ≤ buffer.length) :
    ((m.selectInPlace blockLen totalLen k).run buffer).events.map Event.withoutShares =
      (Plan.ofBlocks totalLen blockLen (min k totalLen) m.fanIn).announcements k := by
  rw [Plan.announcements, Plan.k_ofBlocks]
  rcases Nat.eq_zero_or_pos (min k totalLen) with hk | hk
  · rw [run_selectInPlace_of_eq_zero m hblock htotal hk, if_pos hk, List.append_nil, hk]
    exact Plan.map_withoutShares_clampEvents _ _
  · obtain ⟨folded, hfolded, hevents⟩ := exists_events_selectInPlace m hblock htotal hk rfl
    rw [hevents, if_neg (Nat.ne_of_gt hk)]
    simp only [List.map_append, Plan.map_withoutShares_clampEvents,
      Plan.map_withoutShares_roundEvents, Plan.map_withoutShares_remainderEvents,
      PlanFold.map_eq_of_reported PlanFold.Reported.withoutShares_eq hfolded]

/-- A selection that gives a number has been accepted. -/
theorem accepted_of_result_eq_ok {count : Nat}
    (hok : ((m.selectInPlace blockLen totalLen k).run buffer).result = .ok count) :
    0 < blockLen ∧ totalLen ≤ buffer.length ∧ count = min k totalLen := by
  by_cases hshort : buffer.length < totalLen
  · rw [run_selectInPlace_of_short m hshort] at hok
    cases hok
  · have htotal : totalLen ≤ buffer.length := Nat.le_of_not_lt hshort
    rcases Nat.eq_zero_or_pos blockLen with rfl | hblock
    · rw [run_selectInPlace_of_empty m htotal] at hok
      cases hok
    · refine ⟨hblock, htotal, ?_⟩
      rcases Nat.eq_zero_or_pos (min k totalLen) with hk | hk
      · rw [run_selectInPlace_of_eq_zero m hblock htotal hk] at hok
        cases hok
        exact hk.symm
      · rw [(selectInPlace_goesThrough m hblock htotal hk rfl).1] at hok
        cases hok
        rfl

end Report

/--
**What a selection reports, whatever the comparator and the contents.** A request for more than
there is comes first. A selection of nothing reports nothing else; any other reports the rounds of
its plan in turn, the tail blocks if there are two, and one fold for each of them but the first.
A fold takes as much as it may from the front and from the block, and what all folds leave is what
counts of the tail blocks beyond the elements that are selected. So two selections by the same
numbers report the same, but for what each fold takes from the front and what from the block.
-/
theorem selectInPlace_report
    {α : Type}
    (m : RunMerger α)
    (buffer : List α)
    {blockLen totalLen k count : Nat}
    (hok : ((m.selectInPlace blockLen totalLen k).run buffer).result = .ok count) :
    count = min k totalLen ∧
    (count = 0 →
      ((m.selectInPlace blockLen totalLen k).run buffer).events =
        if totalLen < k then [.clamped k 0] else []) ∧
    (1 ≤ count → ∃ plan folded,
      Plan.make totalLen blockLen k m.fanIn = .ok plan ∧
      ((m.selectInPlace blockLen totalLen k).run buffer).events =
        (if totalLen < k then [.clamped k count] else []) ++
        (((List.range plan.rounds.length).map fun r =>
            .plannedRound r (blockLen * m.fanIn.count ^ r)
              (totalLen / (blockLen * m.fanIn.count ^ (r + 1)))
              (min (blockLen * m.fanIn.count ^ (r + 1)) count)) ++
        ((if 2 ≤ plan.tailBlocks.length then [.foldingRemainder plan.tailBlocks] else []) ++
        folded)) ∧
      plan.folds.map PlanFold.blockLen = plan.tailBlocks.tail ∧
      List.Forall₂ PlanFold.Reported plan.folds folded ∧
      sumCounts (folded.map Event.dropped) + count =
        sumCounts (plan.tailBlocks.map fun len => min len count)) ∧
    ∀ {β : Type} (other : RunMerger β) (contents : List β) {got : Nat},
      other.fanIn = m.fanIn →
      ((other.selectInPlace blockLen totalLen k).run contents).result = .ok got →
      ((other.selectInPlace blockLen totalLen k).run contents).events.map Event.withoutShares =
        ((m.selectInPlace blockLen totalLen k).run buffer).events.map Event.withoutShares := by
  obtain ⟨hblock, htotal, rfl⟩ := accepted_of_result_eq_ok m hok
  refine ⟨rfl, ?_, ?_, ?_⟩
  · intro hk
    have hclamp := Plan.clampEvents_ofBlocks totalLen blockLen k m.fanIn
    rw [hk] at hclamp
    rw [run_selectInPlace_of_eq_zero m hblock htotal hk]
    exact hclamp
  · intro hk
    obtain ⟨folded, hfolded, hevents⟩ := exists_events_selectInPlace m hblock htotal hk rfl
    have hcover : sumCounts (Plan.leftover totalLen blockLen m.fanIn) = totalLen :=
      Plan.sumCounts_tailOf _ _
    have hsum := Plan.sumCounts_dropped (min k totalLen) (Plan.leftover totalLen blockLen m.fanIn)
    rw [hcover, Nat.min_eq_right (Nat.min_le_right k totalLen)] at hsum
    refine ⟨_, folded, Plan.make_eq_ok hblock totalLen k m.fanIn, ?_, ?_, hfolded, ?_⟩
    · rw [hevents, Plan.clampEvents_ofBlocks, Plan.roundEvents_ofBlocks hblock,
        Plan.remainderEvents_ofBlocks]
      rfl
    · exact Plan.map_blockLen_foldsOf _ _
    · rw [PlanFold.map_eq_of_reported PlanFold.Reported.dropped_eq hfolded]
      exact hsum
  · intro β other contents got hfan hother
    obtain ⟨-, hcontents, -⟩ := accepted_of_result_eq_ok other hother
    rw [map_withoutShares_events m hblock htotal, map_withoutShares_events other hblock hcontents,
      hfan]

/-- Two rounds and two folds of other elements, under a comparator with laws, report the same. -/
theorem selectInPlace_report_of_three :
    ∃ folded,
      (((RunMerger.mk Comparator.alwaysBefore .two).selectInPlace 2 11 3).run
        [5, 1, 4, 2, 3, 9, 7, 6, 10, 12, 11, 13]).events =
          [.plannedRound 0 2 2 3, .plannedRound 1 4 1 3, .foldingRemainder [8, 2, 1]] ++ folded ∧
      List.Forall₂ PlanFold.Reported [⟨8, 2, 2, 3, 3⟩, ⟨10, 1, 1, 3, 3⟩] folded ∧
      sumCounts (folded.map Event.dropped) + 3 = 6 ∧
      (((RunMerger.mk compare .two).selectInPlace 2 11 3).run
        [1, 2, 3, 4, 5, 6, 7, 8, 9, 10, 11]).events.map Event.withoutShares =
      (((RunMerger.mk Comparator.alwaysBefore .two).selectInPlace 2 11 3).run
        [5, 1, 4, 2, 3, 9, 7, 6, 10, 12, 11, 13]).events.map Event.withoutShares := by
  obtain ⟨-, -, hreport, hsame⟩ :=
    selectInPlace_report (RunMerger.mk Comparator.alwaysBefore .two)
      [5, 1, 4, 2, 3, 9, 7, 6, 10, 12, 11, 13]
      (show (((RunMerger.mk Comparator.alwaysBefore .two).selectInPlace 2 11 3).run
        [5, 1, 4, 2, 3, 9, 7, 6, 10, 12, 11, 13]).result = .ok 3 by decide +kernel)
  obtain ⟨plan, folded, hmake, hevents, -, hfolded, hsum⟩ := hreport (by decide)
  have hplan : Plan.make 11 2 3 .two = .ok
      ⟨11, 3, [⟨0, 2, 4, 2, 2, 3⟩, ⟨1, 4, 8, 1, 3, 3⟩], [8, 2, 1],
        [⟨8, 2, 2, 3, 3⟩, ⟨10, 1, 1, 3, 3⟩]⟩ := by
    simp [Plan.make, Plan.levels_cons, Plan.roundsOf, Plan.roundOf, Plan.tailOf, Plan.foldsOf,
      Plan.foldsFrom, FanIn.count]
  rw [hplan, Except.ok.injEq] at hmake
  subst hmake
  exact ⟨folded, hevents, hfolded, hsum,
    hsame (RunMerger.mk compare .two) [1, 2, 3, 4, 5, 6, 7, 8, 9, 10, 11] rfl
      (show _ = Except.ok 3 by decide +kernel)⟩

end KWayMerge
