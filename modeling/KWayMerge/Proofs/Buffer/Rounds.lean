import KWayMerge.Buffer.Select
import KWayMerge.Proofs.Buffer.Chunks
import KWayMerge.Proofs.Buffer.Gather

/-!
# What the rounds of a selection do

Before the first round the segments of a buffer are its base blocks. A round gathers each complete
group of the longest segments and leaves the others alone, so that the lengths of the segments are
at all times those of the tail blocks that the plan would leave for folding if no more rounds
came. No round is refused, whatever the comparator and the contents of the buffer.

**Results.**
* `run_runRound`: a round gathers groups of segments.
* `exists_groups`: how the longest segments divide into groups.
* `exists_after_rounds`: the induction along the rounds of a plan.
* `run_rounds`: the effect of all rounds of a plan.
-/

namespace KWayMerge

variable {α : Type}

/-! ### Actions in a row -/

theorem BufferM.run_bind_of_run {β γ : Type} {act : BufferM α β} {next : β → BufferM α γ}
    {buffer middle last : List α} {value : β} {result : Except Fault γ}
    {events later : List Event}
    (hact : act.run buffer = ⟨.ok value, middle, events⟩)
    (hnext : (next value).run middle = ⟨result, last, later⟩) :
    (act >>= next).run buffer = ⟨result, last, events ++ later⟩ := by
  rw [BufferM.run_bind, hact]
  dsimp only
  rw [hnext]

/-- An action that only reads may be passed over. -/
theorem BufferM.run_bind_of_silent {β γ : Type} {act : BufferM α β} {next : β → BufferM α γ}
    {buffer middle : List α} {value : β} (hact : act.run buffer = ⟨.ok value, middle, []⟩) :
    (act >>= next).run buffer = (next value).run middle := by
  rw [BufferM.run_bind, hact]
  rfl

theorem mapM_eq_ok {β γ : Type} {f : β → Except Fault γ} {g : β → γ} {xs : List β}
    (h : ∀ x ∈ xs, f x = .ok (g x)) : xs.mapM f = .ok (xs.map g) := by
  induction xs with
  | nil => rfl
  | cons x xs ih =>
      rw [List.forall_mem_cons] at h
      rw [List.mapM_cons, h.1, ih h.2]
      rfl

/-! ### One round -/

/-- A merge of what counts of some runs, to a capacity that holds all of it, takes what counts. -/
theorem picks_eq_of_agree {cmp : Comparator α} {runs others : List (List α)} {capacity k : Nat}
    (hagree : runs.map (List.take k) = others.map (List.take k)) (hle : capacity ≤ k)
    (hall : min k others.flatten.length ≤ capacity) :
    picks cmp .atCapacity capacity runs = picks cmp .atCapacity k others := by
  have hlength : (picks cmp .atCapacity k others).length ≤ capacity := by
    rw [length_picks]
    exact hall
  calc picks cmp .atCapacity capacity runs
      = (picks cmp .atCapacity k runs).take capacity := by
        rw [take_picks, Nat.min_eq_left hle]
    _ = (picks cmp .atCapacity k others).take capacity := by
        rw [picks_eq_of_map_take_eq hagree]
    _ = picks cmp .atCapacity k others := List.take_of_length_le hlength

theorem length_flatten_of_forall {group : List (List α)} {len : Nat}
    (h : ∀ segment ∈ group, segment.length = len) :
    group.flatten.length = group.length * len := by
  induction group with
  | nil => simp
  | cons segment group ih =>
      rw [List.forall_mem_cons] at h
      rw [List.flatten_cons, List.length_append, ih h.2, h.1, List.length_cons]
      ring

/-- What a round reads of segments of one length is all that counts of them. -/
theorem map_take_of_forall_length {group : List (List α)} {len : Nat}
    (h : ∀ segment ∈ group, segment.length = len) (k : Nat) :
    (group.map (List.take (min len k))).map (List.take k) = group.map (List.take k) := by
  rw [List.map_map]
  refine List.map_congr_left ?_
  intro segment hsegment
  rw [Function.comp_apply, List.take_take, List.take_eq_take_iff, h segment hsegment]
  omega

section Round

variable (m : RunMerger α) {k len total : Nat}

theorem mergeGroup_eq_ok (hk : 0 < k) (hlen : 0 < len) (index : Nat) {group : List (List α)}
    (hcount : group.length = m.fanIn.count) (hgroup : ∀ segment ∈ group, segment.length = len) :
    m.mergeGroup (Plan.roundOf total k m.fanIn index len) group.flatten =
      .ok (gather m.cmp k group) := by
  have htwo := m.fanIn.two_le_count
  have hlength : group.flatten.length = len * m.fanIn.count := by
    rw [length_flatten_of_forall hgroup, hcount, Nat.mul_comm]
  have hcapacity : 0 < min (len * m.fanIn.count) k := by
    have hmerged : 0 < len * m.fanIn.count := m.fanIn.mul_count_pos hlen
    omega
  rw [RunMerger.mergeGroup, Plan.roundOf]
  dsimp only
  rw [chunks_flatten_of_forall hlen hgroup,
    merge_eq_ok (by simp [hcount, htwo]) (by simp [hcount]) hcapacity,
    picks_eq_of_agree (map_take_of_forall_length hgroup k) (Nat.min_le_right _ _) (by omega)]
  rfl

def PlanRound.event (r : PlanRound) : Event :=
  .plannedRound r.index r.blockLen r.groups r.capacity

/-- **A round gathers the groups of segments that it covers.** -/
theorem run_runRound (hk : 0 < k) (hlen : 0 < len) (index : Nat)
    {groups : List (List (List α))} (rest : List α)
    (hcount : groups.length = total / (len * m.fanIn.count))
    (hgroups : ∀ group ∈ groups, group.length = m.fanIn.count ∧
      ∀ segment ∈ group, segment.length = len) :
    (m.runRound (Plan.roundOf total k m.fanIn index len)).run (groups.flatten.flatten ++ rest) =
      ⟨.ok (), (groups.map (gather m.cmp k)).flatten ++ rest,
        [(Plan.roundOf total k m.fanIn index len).event]⟩ := by
  have hmerged : 0 < len * m.fanIn.count := m.fanIn.mul_count_pos hlen
  have hlength : ∀ block ∈ groups.map List.flatten, block.length = len * m.fanIn.count := by
    intro block hblock
    obtain ⟨group, hgroup, rfl⟩ := List.mem_map.1 hblock
    rw [length_flatten_of_forall (hgroups group hgroup).2, (hgroups group hgroup).1, Nat.mul_comm]
  have hcovered : groups.flatten.flatten.length =
      total / (len * m.fanIn.count) * (len * m.fanIn.count) := by
    rw [← hcount, List.flatten_flatten, length_flatten_of_forall hlength, List.length_map]
  have hmerge : (chunks (len * m.fanIn.count) groups.flatten.flatten).mapM
      (m.mergeGroup (Plan.roundOf total k m.fanIn index len)) =
        .ok (groups.map (gather m.cmp k)) := by
    rw [List.flatten_flatten, chunks_flatten_of_forall hmerged hlength, List.mapM_map]
    refine mapM_eq_ok ?_
    intro group hgroup
    exact mergeGroup_eq_ok m hk hlen index (hgroups group hgroup).1 (hgroups group hgroup).2
  rw [RunMerger.runRound]
  refine BufferM.run_bind_of_run (BufferM.run_emit _ _) ?_
  refine BufferM.run_bind_of_run (BufferM.run_contents _) ?_
  change (BufferM.ofExcept
      ((chunks (len * m.fanIn.count) ((groups.flatten.flatten ++ rest).take
        (total / (len * m.fanIn.count) * (len * m.fanIn.count)))).mapM
          (m.mergeGroup (Plan.roundOf total k m.fanIn index len))) >>= fun merged =>
      BufferM.replace (merged.flatten ++ (groups.flatten.flatten ++ rest).drop
        (total / (len * m.fanIn.count) * (len * m.fanIn.count)))).run _ = _
  rw [List.take_left' hcovered, List.drop_left' hcovered, hmerge]
  exact BufferM.run_bind_of_run (BufferM.run_ofExcept _ _) (BufferM.run_replace _ _)

end Round

/-! ### The lengths of the segments -/

theorem exists_groups {β : Type} (n : Nat) :
    ∀ (q : Nat) (xs : List β), xs.length = q * n →
      ∃ groups : List (List β), xs = groups.flatten ∧ groups.length = q ∧
        ∀ group ∈ groups, group.length = n
  | 0, xs, h => by
      rw [Nat.zero_mul, List.length_eq_zero_iff] at h
      exact ⟨[], by simp [h], rfl, by simp⟩
  | q + 1, xs, h => by
      rw [Nat.succ_mul] at h
      have hrest : (xs.drop n).length = q * n := by
        rw [List.length_drop]
        omega
      obtain ⟨groups, hgroups, hcount, hlength⟩ := exists_groups n q (xs.drop n) hrest
      refine ⟨xs.take n :: groups, ?_, by simp [hcount], ?_⟩
      · rw [List.flatten_cons, ← hgroups, List.take_append_drop]
      · rw [List.forall_mem_cons]
        constructor
        · rw [List.length_take]
          omega
        · exact hlength

/-- What a round leaves alone: the longest segments that form no group, and all shorter ones. -/
def Plan.ungrouped (f : FanIn) (len : Nat) (lower : List Nat) (total : Nat) : List Nat :=
  List.replicate (total % (len * f.count) / len) len ++ Plan.tailOf lower (total % len)

theorem Plan.tailOf_grouped (f : FanIn) (len : Nat) (lower : List Nat) (total : Nat) :
    Plan.tailOf (len :: lower) total =
      List.replicate (total / (len * f.count) * f.count) len ++
        Plan.ungrouped f len lower total := by
  have hdiv : total / len =
      total / (len * f.count) * f.count + total % (len * f.count) / len := by
    rw [← Nat.div_div_eq_div_mul, Nat.mod_mul_right_div_self, Nat.div_add_mod']
  rw [Plan.tailOf, Plan.ungrouped, hdiv, List.replicate_add, List.append_assoc]

theorem Plan.tailOf_merged (f : FanIn) (len : Nat) (lower : List Nat) (total : Nat) :
    Plan.tailOf (len * f.count :: len :: lower) total =
      List.replicate (total / (len * f.count)) (len * f.count) ++
        Plan.ungrouped f len lower total := by
  rw [Plan.tailOf, Plan.tailOf, Plan.ungrouped, Nat.mod_mul_right_mod]

theorem forall_length_of_map_length_eq_replicate {segments : List (List α)} {n len : Nat}
    (h : segments.map List.length = List.replicate n len) :
    ∀ segment ∈ segments, segment.length = len := by
  intro segment hsegment
  have hmem : segment.length ∈ segments.map List.length := List.mem_map_of_mem hsegment
  rw [h] at hmem
  exact List.eq_of_mem_replicate hmem

/-! ### All rounds -/

section Rounds

variable (m : RunMerger α) {k total : Nat}

/-- The longest segments divide into the groups that a round gathers, and the others stay. -/
theorem exists_round_groups (f : FanIn) {len : Nat} {lower : List Nat} {segments : List (List α)}
    (hsegments : segments.map List.length = Plan.tailOf (len :: lower) total) :
    ∃ (groups : List (List (List α))) (rest : List (List α)),
      segments = groups.flatten ++ rest ∧
      groups.length = total / (len * f.count) ∧
      (∀ group ∈ groups, group.length = f.count ∧ ∀ segment ∈ group, segment.length = len) ∧
      ∀ cmp : Comparator α, (groups.map (gather cmp k) ++ rest).map List.length =
        Plan.tailOf (len * f.count :: len :: lower) total := by
  rw [Plan.tailOf_grouped f] at hsegments
  obtain ⟨head, rest, rfl, hhead, hrest⟩ := List.map_eq_append_iff.1 hsegments
  have hheadLength : head.length = total / (len * f.count) * f.count := by
    rw [← List.length_map List.length, hhead, List.length_replicate]
  obtain ⟨groups, rfl, hcount, hgroups⟩ := exists_groups f.count _ head hheadLength
  have hmembers : ∀ group ∈ groups, group.length = f.count ∧
      ∀ segment ∈ group, segment.length = len := by
    intro group hgroup
    constructor
    · exact hgroups group hgroup
    · intro segment hsegment
      exact forall_length_of_map_length_eq_replicate hhead segment
        (List.mem_flatten.2 ⟨group, hgroup, hsegment⟩)
  refine ⟨groups, rest, rfl, hcount, hmembers, ?_⟩
  intro cmp
  have hmerged : (groups.map (gather cmp k)).map List.length =
      List.replicate (total / (len * f.count)) (len * f.count) := by
    rw [List.eq_replicate_iff, List.length_map, List.length_map]
    constructor
    · exact hcount
    · intro n hn
      obtain ⟨segment, hsegment, rfl⟩ := List.mem_map.1 hn
      obtain ⟨group, hgroup, rfl⟩ := List.mem_map.1 hsegment
      rw [length_gather, length_flatten_of_forall (hmembers group hgroup).2,
        (hmembers group hgroup).1, Nat.mul_comm]
  rw [List.map_append, hmerged, hrest, Plan.tailOf_merged]

/-- **A round turns the longest segments into longer ones, and some stay.** -/
theorem run_runRound_layout (hk : 0 < k) {len : Nat} (hlen : 0 < len) (index : Nat)
    {lower : List Nat} {segments : List (List α)}
    (hsegments : segments.map List.length = Plan.tailOf (len :: lower) total) :
    ∃ after, Gathers m.cmp k segments after ∧
      after.map List.length = Plan.tailOf (len * m.fanIn.count :: len :: lower) total ∧
      (m.runRound (Plan.roundOf total k m.fanIn index len)).run segments.flatten =
        ⟨.ok (), after.flatten, [(Plan.roundOf total k m.fanIn index len).event]⟩ := by
  obtain ⟨groups, rest, rfl, hcount, hmembers, hlengths⟩ :=
    exists_round_groups (k := k) m.fanIn hsegments
  refine ⟨groups.map (gather m.cmp k) ++ rest, gathers_map [] groups rest, hlengths m.cmp, ?_⟩
  rw [List.flatten_append, List.flatten_append]
  exact run_runRound m hk hlen index rest.flatten hcount hmembers

theorem Plan.levels_ne_nil (total : Nat) (f : FanIn) (len : Nat) :
    Plan.levels total f len ≠ [] := by
  rw [Plan.levels_cons]
  split
  · simp
  · simp

/--
**What one round establishes holds of all rounds from one block length on.** Before and after each
round the segments have the lengths of the tail blocks that would be folded if no more came.
-/
theorem exists_after_rounds {f : FanIn}
    (along : List PlanRound → List (List α) → List (List α) → Prop)
    (refl : ∀ segments, along [] segments segments)
    (step : ∀ (index : Nat) {len : Nat}, 0 < len → ∀ (lower : List Nat) (segments : List (List α)),
      segments.map List.length = Plan.tailOf (len :: lower) total →
      ∃ middle : List (List α),
        middle.map List.length = Plan.tailOf (len * f.count :: len :: lower) total ∧
        ∀ rounds after, along rounds middle after →
          along (Plan.roundOf total k f index len :: rounds) segments after)
    {len : Nat} (hlen : 0 < len) (start : Nat) (lower : List Nat) {segments : List (List α)}
    (hsegments : segments.map List.length = Plan.tailOf (len :: lower) total) :
    ∃ after : List (List α),
      after.map List.length = Plan.tailOf ((Plan.levels total f len).reverse ++ lower) total ∧
      along ((Plan.levels total f len).dropLast.mapIdx fun i n =>
        Plan.roundOf total k f (start + i) n) segments after := by
  induction len using Plan.levels.induct total f generalizing start lower segments with
  | case1 len h ih =>
      obtain ⟨middle, hmiddle, hstep⟩ := step start hlen lower segments hsegments
      obtain ⟨after, hafter, hrest⟩ :=
        ih (f.mul_count_pos hlen) (start + 1) (len :: lower) hmiddle
      rw [Plan.levels_cons, if_pos h,
        List.dropLast_cons_of_ne_nil (Plan.levels_ne_nil _ _ _), List.mapIdx_cons]
      simp only [Nat.add_assoc, Nat.add_comm 1] at hrest
      exact ⟨after, by simpa using hafter, hstep _ after hrest⟩
  | case2 len h =>
      rw [Plan.levels_cons, if_neg h]
      exact ⟨segments, hsegments, refl segments⟩

/-- **All rounds from one block length on.** -/
theorem run_rounds (hk : 0 < k) {len : Nat} (hlen : 0 < len) (start : Nat) (lower : List Nat)
    {segments : List (List α)}
    (hsegments : segments.map List.length = Plan.tailOf (len :: lower) total) :
    ∃ after, after.map List.length =
        Plan.tailOf ((Plan.levels total m.fanIn len).reverse ++ lower) total ∧
      Gathers m.cmp k segments after ∧
      (((Plan.levels total m.fanIn len).dropLast.mapIdx fun i n =>
          Plan.roundOf total k m.fanIn (start + i) n).forM m.runRound).run segments.flatten =
        ⟨.ok (), after.flatten,
          ((Plan.levels total m.fanIn len).dropLast.mapIdx fun i n =>
            Plan.roundOf total k m.fanIn (start + i) n).map PlanRound.event⟩ := by
  refine exists_after_rounds
    (fun rounds segments after => Gathers m.cmp k segments after ∧
      (rounds.forM m.runRound).run segments.flatten =
        ⟨.ok (), after.flatten, rounds.map PlanRound.event⟩)
    (fun segments => ⟨.refl, rfl⟩) ?_ hlen start lower hsegments
  intro index len hlen lower segments hsegments
  obtain ⟨middle, hgathers, hlengths, hrun⟩ := run_runRound_layout m hk hlen index hsegments
  refine ⟨middle, hlengths, ?_⟩
  rintro rounds after ⟨hgathers', hrun'⟩
  exact ⟨hgathers.trans hgathers', BufferM.run_bind_of_run hrun hrun'⟩

end Rounds

end KWayMerge
