import KWayMerge.Proofs.Buffer.Calls
import KWayMerge.Proofs.Buffer.Layout

/-!
# What a selection leaves untouched

The merges of a plan write to the data at many places: in each round over the fronts of its
groups, and in the folds over the front of all. A group of any round starts where a group of base
blocks starts, and no merge writes more elements than are selected. So a place is left as it was
if it lies behind all groups and behind the front, or too far behind the start of its own group
of base blocks.

**Results.**
* `Performs.getElem?_data`: calls leave alone what none of them writes to.
* `keepsToFronts_of_mem_calls`: where the calls of a plan may write.
* `selectInPlace_leaves_untouched`: what a selection, refused or not, leaves as it was.
-/

namespace KWayMerge

/-! ### Places that calls write to -/

/-- The place lies in what the call copies back. -/
def MergeCall.Writes (c : MergeCall) (place : Nat) : Prop :=
  c.target ≤ place ∧ place < c.target + c.capacity

section Calls

variable {α : Type} {m : RunMerger α}

/-- A merge over a destination neither lengthens nor shortens it. -/
theorem length_snd_mergeOver (m : RunMerger α) (runs : List (List α)) (track : Bool)
    (dst : List α) : (m.mergeOver runs track dst).2.length = dst.length := by
  rw [RunMerger.mergeOver]
  cases m.accept runs.length dst.length with
  | error fault => rfl
  | ok _ => exact length_overwrite _ _

variable {w : Workspace α} {c : MergeCall} {filled : List α}

theorem Workspace.length_after (hbounds : c.InBounds w) (hfilled : filled.length = c.capacity) :
    (w.after c filled).data.length = w.data.length := by
  have htarget := hbounds.target
  simp only [Workspace.after, List.length_append, List.length_take, List.length_drop, hfilled]
  omega

theorem Workspace.getElem?_after (hbounds : c.InBounds w)
    (hfilled : filled.length = c.capacity) {place : Nat} (hplace : ¬c.Writes place) :
    (w.after c filled).data[place]? = w.data[place]? := by
  have htarget := hbounds.target
  have hfront : (w.data.take c.target).length = c.target := by
    rw [List.length_take]
    omega
  rw [Workspace.after]
  rcases Nat.lt_or_ge place c.target with hlt | hge
  · rw [List.getElem?_append_left (by omega), List.getElem?_take_of_lt hlt]
  · have hbehind : c.target + c.capacity ≤ place := by
      by_contra hlt
      exact hplace ⟨hge, Nat.lt_of_not_le hlt⟩
    have hindex : c.target + c.capacity + (place - c.target - c.capacity) = place := by omega
    rw [List.getElem?_append_right (by omega), hfront,
      List.getElem?_append_right (by omega), hfilled, List.getElem?_drop, hindex]

/-- What a call that goes through copies back fills what it has room for. -/
theorem length_filled {report : Filled} (hbounds : c.InBounds w)
    (hmerge : m.mergeOver (c.runs w.data) c.track (w.scratch.take c.capacity) =
      (.ok report, filled)) : filled.length = c.capacity := by
  have hlength := length_snd_mergeOver m (c.runs w.data) c.track (w.scratch.take c.capacity)
  rwa [hmerge, List.length_take_of_le hbounds.scratch] at hlength

variable {last : Workspace α} {calls : List MergeCall}

theorem Performs.length_data (h : Performs m w calls last) :
    last.data.length = w.data.length := by
  induction h with
  | nil w => rfl
  | cons hbounds hmerge hproduced hrest ih =>
      rw [ih, Workspace.length_after hbounds (length_filled hbounds hmerge)]

/-- **Calls leave alone what none of them writes to.** -/
theorem Performs.getElem?_data (h : Performs m w calls last) {place : Nat}
    (hplace : ∀ c ∈ calls, ¬c.Writes place) : last.data[place]? = w.data[place]? := by
  induction h with
  | nil w => rfl
  | cons hbounds hmerge hproduced hrest ih =>
      rw [List.forall_mem_cons] at hplace
      rw [ih hplace.2,
        Workspace.getElem?_after hbounds (length_filled hbounds hmerge) hplace.1]

end Calls

/-! ### Where a plan writes -/

/--
The call writes over at most `k` elements from a multiple of `len` on: either those at the front
of all, or within the complete stretches of `len` elements.
-/
structure MergeCall.KeepsToFronts (c : MergeCall) (len k total : Nat) : Prop where
  aligned : len ∣ c.target
  clamped : c.capacity ≤ k
  covered : c.target = 0 ∨ c.target + c.capacity ≤ total / len * len

theorem MergeCall.KeepsToFronts.of_writes {c : MergeCall} {len k total place : Nat}
    (h : c.KeepsToFronts len k total) (hwrites : c.Writes place) :
    place % len < k ∧ (place < k ∨ place < total / len * len) := by
  have hclamped := h.clamped
  obtain ⟨hstart, hend⟩ := hwrites
  constructor
  · have hmod : place % len = (place - c.target) % len := by
      obtain ⟨number, hnumber⟩ := h.aligned
      have hplace : place = place - c.target + len * number := by omega
      rw [hplace, Nat.add_mul_mod_self_left, ← hplace]
    have hle : (place - c.target) % len ≤ place - c.target := Nat.mod_le _ _
    omega
  · rcases h.covered with hfront | hcovered
    · left
      omega
    · right
      omega

/-- The longest row of whole stretches has a length that all multiples within the whole keep to. -/
theorem mul_le_div_mul_of_dvd {len merged total number : Nat} (hdvd : len ∣ merged)
    (hnumber : number ≤ total / merged) : number * merged ≤ total / len * len := by
  have hfits : number * merged ≤ total :=
    (Nat.mul_le_mul_right merged hnumber).trans (Nat.div_mul_le_self total merged)
  rw [← Nat.div_mul_cancel (hdvd.mul_left number)]
  exact Nat.mul_le_mul_right len (Nat.div_le_div_right hfits)

namespace Plan

variable {total blockLen k : Nat} {f : FanIn} {c : MergeCall}

theorem dvd_levelLen_succ (blockLen : Nat) (f : FanIn) (r : Nat) :
    blockLen * f.count ∣ levelLen blockLen f (r + 1) := by
  rw [← levelLen_mul_count]
  exact Dvd.intro _ rfl

/-- The groups of a round start where groups of base blocks start. -/
theorem keepsToFronts_of_mem_roundCalls {r : Nat}
    (h : c ∈ (roundOf total k f r (levelLen blockLen f r)).calls f) :
    c.KeepsToFronts (blockLen * f.count) k total := by
  obtain ⟨group, hgroup, rfl⟩ := List.mem_map.1 h
  have hlt : group < total / levelLen blockLen f (r + 1) := by
    rw [levelLen_succ]
    exact List.mem_range.1 hgroup
  have hdvd : blockLen * f.count ∣ levelLen blockLen f r * f.count := by
    rw [← levelLen_succ]
    exact dvd_levelLen_succ blockLen f r
  constructor
  · exact hdvd.mul_left group
  · exact Nat.min_le_right _ _
  · right
    rw [levelLen_succ] at hlt
    have hend : (group + 1) * (levelLen blockLen f r * f.count) ≤
        total / (blockLen * f.count) * (blockLen * f.count) :=
      mul_le_div_mul_of_dvd hdvd hlt
    rw [Nat.succ_mul] at hend
    have hcapacity : min (levelLen blockLen f r * f.count) k ≤ levelLen blockLen f r * f.count :=
      Nat.min_le_left _ _
    exact (Nat.add_le_add_left hcapacity _).trans hend

/-- A fold writes over the front of all. -/
theorem keepsToFronts_of_mem_foldCalls {lens : List Nat} (len : Nat)
    (h : c ∈ (foldsOf k lens).map PlanFold.call) : c.KeepsToFronts len k total := by
  rw [foldsOf_eq, List.map_map] at h
  obtain ⟨place, -, rfl⟩ := List.mem_map.1 h
  constructor
  · exact Nat.dvd_zero len
  · exact Nat.min_le_right _ _
  · exact Or.inl rfl

/-- **No call of a plan writes far behind the start of a group of base blocks.** -/
theorem keepsToFronts_of_mem_calls (hblock : 0 < blockLen)
    (h : c ∈ (ofBlocks total blockLen k f).calls f) :
    c.KeepsToFronts (blockLen * f.count) k total := by
  obtain ⟨last, -, hlevels⟩ := exists_levels_eq hblock total f
  rcases List.mem_append.1 h with h | h
  · rw [rounds_ofBlocks k hlevels] at h
    obtain ⟨round, hround, h⟩ := List.mem_flatMap.1 h
    obtain ⟨r, -, rfl⟩ := List.mem_map.1 hround
    exact keepsToFronts_of_mem_roundCalls h
  · exact keepsToFronts_of_mem_foldCalls _ h

end Plan

/-! ### Selections -/

section Selection

variable {α : Type} {m : RunMerger α} {k : Nat} {buffer after : List α}

theorem Plan.GoesThrough.length_eq {p : Plan} (h : p.GoesThrough m buffer after) :
    after.length = buffer.length := by
  obtain ⟨last, hperforms, rfl⟩ := h.merges
  have hlength : last.data.length = (buffer.take p.totalLen).length := hperforms.length_data
  rw [List.length_append, hlength, ← List.length_append, List.take_append_drop]

theorem Plan.GoesThrough.getElem?_eq {p : Plan} (h : p.GoesThrough m buffer after)
    (htotal : p.totalLen ≤ buffer.length) {place : Nat}
    (hplace : place < p.totalLen → ∀ c ∈ p.calls m.fanIn, ¬c.Writes place) :
    after[place]? = buffer[place]? := by
  obtain ⟨last, hperforms, rfl⟩ := h.merges
  have hlength : last.data.length = p.totalLen :=
    hperforms.length_data.trans (List.length_take_of_le htotal)
  rcases Nat.lt_or_ge place p.totalLen with hlt | hge
  · rw [List.getElem?_append_left (by omega), hperforms.getElem?_data (hplace hlt)]
    exact List.getElem?_take_of_lt hlt
  · have hindex : p.totalLen + (place - p.totalLen) = place := by omega
    rw [List.getElem?_append_right (by omega), List.getElem?_drop, hlength, hindex]

/-- A selection that is refused, or that is one of nothing, leaves all of the buffer. -/
theorem buffer_selectInPlace_of_nothing (m : RunMerger α) {blockLen totalLen : Nat}
    (h : buffer.length < totalLen ∨ blockLen = 0 ∨ min k totalLen = 0) :
    ((m.selectInPlace blockLen totalLen k).run buffer).buffer = buffer := by
  by_cases hshort : buffer.length < totalLen
  · rw [run_selectInPlace_of_short m hshort]
  · have htotal : totalLen ≤ buffer.length := Nat.le_of_not_lt hshort
    rcases Nat.eq_zero_or_pos blockLen with rfl | hblock
    · rw [run_selectInPlace_of_empty m htotal]
    · have hk : min k totalLen = 0 := (h.resolve_left hshort).resolve_left hblock.ne'
      rw [run_selectInPlace_of_eq_zero m hblock htotal hk]

end Selection

/--
**What a selection leaves untouched, whatever the comparator and the contents.** No place behind
the elements it is for is touched. Neither is one that lies behind the selected elements and behind
all complete groups of base blocks, nor one that lies in its group of base blocks behind as many
elements as are selected. A selection of nothing changes nothing, and neither does one that is
refused.
-/
theorem selectInPlace_leaves_untouched
    {α : Type}
    (m : RunMerger α)
    (buffer : List α)
    (blockLen totalLen k : Nat) :
    (∀ place,
      totalLen ≤ place ∨
      (k ≤ place ∧
        totalLen / (blockLen * m.fanIn.count) * (blockLen * m.fanIn.count) ≤ place) ∨
      k ≤ place % (blockLen * m.fanIn.count) →
        ((m.selectInPlace blockLen totalLen k).run buffer).buffer[place]? = buffer[place]?) ∧
    ((m.selectInPlace blockLen totalLen k).run buffer).buffer.length = buffer.length ∧
    ((m.selectInPlace blockLen totalLen k).run buffer).buffer.drop totalLen =
      buffer.drop totalLen ∧
    (k = 0 → ((m.selectInPlace blockLen totalLen k).run buffer).buffer = buffer) := by
  by_cases hnothing : buffer.length < totalLen ∨ blockLen = 0 ∨ min k totalLen = 0
  · rw [buffer_selectInPlace_of_nothing m hnothing]
    exact ⟨fun _ _ => rfl, rfl, rfl, fun _ => rfl⟩
  · rw [not_or, not_or] at hnothing
    obtain ⟨hshort, hempty, hnone⟩ := hnothing
    have hblock : 0 < blockLen := Nat.pos_of_ne_zero hempty
    have htotal : totalLen ≤ buffer.length := Nat.le_of_not_lt hshort
    obtain ⟨-, hthrough⟩ :=
      selectInPlace_goesThrough m hblock htotal (Nat.pos_of_ne_zero hnone) rfl
    have hplaces : ∀ place,
        totalLen ≤ place ∨
        (k ≤ place ∧
          totalLen / (blockLen * m.fanIn.count) * (blockLen * m.fanIn.count) ≤ place) ∨
        k ≤ place % (blockLen * m.fanIn.count) →
          ((m.selectInPlace blockLen totalLen k).run buffer).buffer[place]? = buffer[place]? := by
      intro place hplace
      refine hthrough.getElem?_eq htotal ?_
      intro hlt c hc hwrites
      have hkeeps := Plan.keepsToFronts_of_mem_calls hblock hc
      have hwritten := hkeeps.of_writes hwrites
      have hlt' : place < totalLen := hlt
      omega
    refine ⟨hplaces, hthrough.length_eq, ?_, fun hk => ?_⟩
    · refine List.ext_getElem? ?_
      intro i
      rw [List.getElem?_drop, List.getElem?_drop]
      exact hplaces _ (Or.inl (Nat.le_add_right _ _))
    · omega

/-- Untouched are a place far into its group, one behind the groups, and one behind them all. -/
theorem selectInPlace_of_three_leaves_untouched :
    ∃ after : List Nat,
      after = (((RunMerger.mk Comparator.alwaysBefore .two).selectInPlace 2 11 3).run
        [5, 1, 4, 2, 3, 9, 7, 6, 10, 12, 11, 13]).buffer ∧
      after.take 7 = [11, 10, 12, 2, 7, 6, 3] ∧
      after[7]? = some 6 ∧
      after[9]? = some 12 ∧
      after[11]? = some 13 := by
  obtain ⟨hplaces, -, -, -⟩ :=
    selectInPlace_leaves_untouched (RunMerger.mk Comparator.alwaysBefore .two)
      [5, 1, 4, 2, 3, 9, 7, 6, 10, 12, 11, 13] 2 11 3
  exact ⟨_, rfl, by decide +kernel, hplaces 7 (by decide), hplaces 9 (by decide),
    hplaces 11 (by decide)⟩

end KWayMerge
