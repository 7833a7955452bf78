import KWayMerge.Proofs.Buffer.Selection

/-!
# The merges of a selection in their places

A selection works on its data with a scratch of as many elements as are selected. Each merge of a
plan reads slices of the data, fills a front of the scratch, and is copied back to one place of
the data. Which slices these are, and where they lie, is computed from the plan alone. Here it is
shown that none of them reaches beyond its store, that no merge is refused, and that each fills
all that it was given. One merge after another they leave the data as the selection leaves it.

**Results.**
* `performs_singleton`: one merge in its place gathers a group of segments.
* `inPlace_runRound`, `inPlace_runFold`: the merges of a round, and that of a fold.
* `inPlace_carryOut`: all merges of a plan go through.
* `selectInPlace_outcome`: when a selection is refused, and that otherwise all of it is done.
-/

namespace KWayMerge

/-! ### Slices and calls -/

/-- A stretch of a store. -/
structure Slice where
  start : Nat
  length : Nat
deriving DecidableEq, Repr

/-- A merge of slices of the data, by way of the scratch, to a place in the data. -/
structure MergeCall where
  reads : List Slice
  target : Nat
  capacity : Nat
  track : Bool
deriving DecidableEq, Repr

/-- The call for one group of a round. -/
def PlanRound.call (r : PlanRound) (f : FanIn) (group : Nat) : MergeCall where
  reads := (List.range f.count).map fun j => ⟨group * r.mergedLen + j * r.blockLen, r.runLen⟩
  target := group * r.mergedLen
  capacity := r.capacity
  track := false

def PlanRound.calls (r : PlanRound) (f : FanIn) : List MergeCall :=
  (List.range r.groups).map (r.call f)

def PlanFold.call (s : PlanFold) : MergeCall where
  reads := [⟨0, s.gathered⟩, ⟨s.offset, s.runLen⟩]
  target := 0
  capacity := s.capacity
  track := true

/-- All calls of a plan: those of its rounds, and then those of its folds. -/
def Plan.calls (p : Plan) (f : FanIn) : List MergeCall :=
  (p.rounds.flatMap fun r => r.calls f) ++ p.folds.map PlanFold.call

variable {α : Type}

/-- What a selection works on. -/
structure Workspace (α : Type) where
  data : List α
  scratch : List α

def Slice.of (s : Slice) (store : List α) : List α :=
  (store.drop s.start).take s.length

namespace MergeCall

def runs (c : MergeCall) (data : List α) : List (List α) :=
  c.reads.map fun s => s.of data

/-- No slice of the call reaches beyond the end of its store. -/
structure InBounds (c : MergeCall) (w : Workspace α) : Prop where
  reads : ∀ s ∈ c.reads, s.start + s.length ≤ w.data.length
  scratch : c.capacity ≤ w.scratch.length
  target : c.target + c.capacity ≤ w.data.length

end MergeCall

/-- The workspace when the front of the scratch has become `filled` and has been copied back. -/
def Workspace.after (w : Workspace α) (c : MergeCall) (filled : List α) : Workspace α where
  data := w.data.take c.target ++ (filled ++ w.data.drop (c.target + c.capacity))
  scratch := filled ++ w.scratch.drop c.capacity

/--
The calls go through one after another: the slices of each lie within their stores, its merge is
not refused, and it produces as many elements as it has room for.
-/
inductive Performs (m : RunMerger α) : Workspace α → List MergeCall → Workspace α → Prop
  | nil (w : Workspace α) : Performs m w [] w
  | cons
      {w last : Workspace α} {c : MergeCall} {calls : List MergeCall}
      {report : Filled} {filled : List α}
      (hbounds : c.InBounds w)
      (hmerge : m.mergeOver (c.runs w.data) c.track (w.scratch.take c.capacity) =
        (.ok report, filled))
      (hproduced : report.produced = c.capacity)
      (hrest : Performs m (w.after c filled) calls last) :
      Performs m w (c :: calls) last

theorem Performs.append {m : RunMerger α} {w middle last : Workspace α}
    {calls others : List MergeCall}
    (h : Performs m w calls middle) (hothers : Performs m middle others last) :
    Performs m w (calls ++ others) last := by
  induction h with
  | nil w => exact hothers
  | cons hbounds hmerge hproduced hrest ih =>
      exact .cons hbounds hmerge hproduced (ih hothers)

section Calls

variable (m : RunMerger α) {k : Nat}

/-! ### One call -/

/-- A merge into a destination that it fills leaves there what it picked. -/
theorem mergeOver_eq_ok_of_full {runs : List (List α)} {dst : List α}
    (htwo : 2 ≤ runs.length) (hfan : runs.length ≤ m.fanIn.count) (hdst : 0 < dst.length)
    (track : Bool)
    (hfull : (picks m.cmp .atCapacity dst.length runs).length = dst.length) :
    m.mergeOver runs track dst =
      (.ok ⟨dst.length,
          RunMerger.tallyIf track runs (picks m.cmp .atCapacity dst.length runs)⟩,
        (picks m.cmp .atCapacity dst.length runs).map Pick.value) := by
  have hvalues : ((picks m.cmp .atCapacity dst.length runs).map Pick.value).length =
      dst.length := by
    rw [List.length_map, hfull]
  rw [RunMerger.mergeOver, accept_eq_ok htwo hfan hdst]
  dsimp only
  rw [hfull, overwrite, List.take_of_length_le (Nat.le_of_eq hvalues), hvalues,
    List.drop_length, List.append_nil]

/-- Copying the picks from a group over its front, wherever it stands, gathers it. -/
theorem gather_in_place (cmp : Comparator α) (left right : List α) (group : List (List α)) :
    left ++ ((picks cmp .atCapacity k group).map Pick.value ++
        (left ++ (group.flatten ++ right)).drop
          (left.length + (picks cmp .atCapacity k group).length)) =
      left ++ (gather cmp k group ++ right) := by
  have hle : ((picks cmp .atCapacity k group).map Pick.value).length ≤ group.flatten.length :=
    length_map_value_picks_le group
  rw [gather, overwrite, List.take_of_length_le hle, List.length_map,
    List.drop_length_add_append,
    List.drop_append_of_le_length (by rwa [List.length_map] at hle), List.append_assoc]

/--
**A call that reads what counts of a group of segments gathers the group in its place.**
-/
theorem performs_singleton
    {c : MergeCall} {group : List (List α)} (left right : List α) {scratch : List α}
    (htwo : 2 ≤ group.length)
    (hfan : group.length ≤ m.fanIn.count)
    (hreads : ∀ s ∈ c.reads, s.start + s.length ≤ (left ++ (group.flatten ++ right)).length)
    (hruns : (c.runs (left ++ (group.flatten ++ right))).map (List.take k) =
      group.map (List.take k))
    (htarget : c.target = left.length)
    (hcapacity : c.capacity = min k group.flatten.length)
    (hpos : 0 < c.capacity)
    (hscratch : scratch.length = k) :
    ∃ other, other.length = k ∧
      Performs m ⟨left ++ (group.flatten ++ right), scratch⟩ [c]
        ⟨left ++ (gather m.cmp k group ++ right), other⟩ := by
  have hdst : (scratch.take c.capacity).length = c.capacity := by
    rw [List.length_take]
    omega
  have hcount : (c.runs (left ++ (group.flatten ++ right))).length = group.length := by
    have h := congrArg List.length hruns
    rwa [List.length_map, List.length_map] at h
  have hpicks : picks m.cmp .atCapacity (scratch.take c.capacity).length
      (c.runs (left ++ (group.flatten ++ right))) = picks m.cmp .atCapacity k group := by
    rw [hdst]
    exact picks_eq_of_agree hruns (by omega) (by omega)
  have hfull : (picks m.cmp .atCapacity k group).length = c.capacity := by
    rw [length_picks, hcapacity]
  have hroom : (picks m.cmp .atCapacity (scratch.take c.capacity).length
      (c.runs (left ++ (group.flatten ++ right)))).length = (scratch.take c.capacity).length := by
    rw [hpicks, hfull, hdst]
  have hmerge := mergeOver_eq_ok_of_full m (by omega) (by omega) (by omega) c.track hroom
  rw [hpicks] at hmerge
  have hbounds : c.InBounds (⟨left ++ (group.flatten ++ right), scratch⟩ : Workspace α) := by
    constructor
    · exact hreads
    · dsimp only
      omega
    · dsimp only
      rw [List.length_append, List.length_append]
      omega
  refine ⟨(picks m.cmp .atCapacity k group).map Pick.value ++ scratch.drop c.capacity, ?_, ?_⟩
  · rw [List.length_append, List.length_map, List.length_drop]
    omega
  · refine .cons hbounds hmerge hdst ?_
    rw [Workspace.after, htarget]
    dsimp only
    rw [List.take_left, ← hfull, gather_in_place]
    exact .nil _

/-! ### Actions whose merges are known -/

/--
The action takes the data to `after`, and so do the calls in their places, with a scratch of `k`
elements.
-/
structure InPlace (k : Nat) (act : BufferM α Unit) (calls : List MergeCall)
    (data after : List α) : Prop where
  run : ∃ events, act.run data = ⟨.ok (), after, events⟩
  performs : ∀ scratch : List α, scratch.length = k → ∃ other, other.length = k ∧
    Performs m ⟨data, scratch⟩ calls ⟨after, other⟩

variable {m}

theorem InPlace.bind {act next : BufferM α Unit} {calls others : List MergeCall}
    {data middle after : List α}
    (hact : InPlace m k act calls data middle) (hnext : InPlace m k next others middle after) :
    InPlace m k (act >>= fun _ => next) (calls ++ others) data after := by
  obtain ⟨events, hrun⟩ := hact.run
  obtain ⟨later, hrun'⟩ := hnext.run
  constructor
  · exact ⟨events ++ later, BufferM.run_bind_of_run hrun hrun'⟩
  · intro scratch hscratch
    obtain ⟨other, hother, hperforms⟩ := hact.performs scratch hscratch
    obtain ⟨last, hlast, hperforms'⟩ := hnext.performs other hother
    exact ⟨last, hlast, hperforms.append hperforms'⟩

/-- An action that leaves the data alone needs no calls. -/
theorem InPlace.of_run {act : BufferM α Unit} {data : List α} {events : List Event}
    (hrun : act.run data = ⟨.ok (), data, events⟩) : InPlace m k act [] data data := by
  constructor
  · exact ⟨events, hrun⟩
  · intro scratch hscratch
    exact ⟨scratch, hscratch, .nil _⟩

variable (m)

/-! ### The calls of a round -/

/-- Slices at the distance of the segments hold the fronts of the segments. -/
theorem map_of_slices {len n : Nat} (hn : n ≤ len) (left right : List α)
    {group : List (List α)} (hgroup : ∀ segment ∈ group, segment.length = len) :
    ((List.range group.length).map fun j => (⟨left.length + j * len, n⟩ : Slice)).map
        (fun s => s.of (left ++ (group.flatten ++ right))) =
      group.map (List.take n) := by
  induction group generalizing left with
  | nil => rfl
  | cons segment group ih =>
      rw [List.forall_mem_cons] at hgroup
      have hrest := ih (left ++ segment) hgroup.2
      have hassoc : left ++ ((segment :: group).flatten ++ right) =
          left ++ segment ++ (group.flatten ++ right) := by
        simp
      have hstart : ∀ j, left.length + (j + 1) * len = (left ++ segment).length + j * len := by
        intro j
        rw [List.length_append, hgroup.1]
        ring
      rw [List.length_cons, List.range_succ_eq_map, List.map_cons, List.map_cons, List.map_map,
        List.map_cons, hassoc]
      refine congrArg₂ List.cons ?_ ?_
      · have hfront : n ≤ segment.length := hgroup.1.symm ▸ hn
        rw [Slice.of, Nat.zero_mul, Nat.add_zero, List.append_assoc, List.drop_left,
          List.take_append_of_le_length hfront]
      · rw [← hrest, List.map_map, List.map_map]
        refine List.map_congr_left ?_
        intro j _
        simp only [Function.comp_apply, Nat.succ_eq_add_one, hstart]

section Round

variable {index len total : Nat}

/-- The call for one group of a round, in a row of groups that starts with those done. -/
theorem performs_group (hk : 0 < k) (hlen : 0 < len) {r : PlanRound}
    (hr : r = Plan.roundOf total k m.fanIn index len)
    (number : Nat)
    {group : List (List α)}
    (hcount : group.length = m.fanIn.count)
    (hgroup : ∀ segment ∈ group, segment.length = len)
    {left : List α} (hleft : left.length = number * (len * m.fanIn.count))
    (right : List α)
    {scratch : List α} (hscratch : scratch.length = k) :
    ∃ other, other.length = k ∧
      Performs m ⟨left ++ (group.flatten ++ right), scratch⟩
        [r.call m.fanIn number]
        ⟨left ++ (gather m.cmp k group ++ right), other⟩ := by
  have hflatten : group.flatten.length = len * m.fanIn.count := by
    rw [length_flatten_of_forall hgroup, hcount, Nat.mul_comm]
  have hmerged : 0 < len * m.fanIn.count := m.fanIn.mul_count_pos hlen
  have htwo := m.fanIn.two_le_count
  subst hr
  have hruns : ((Plan.roundOf total k m.fanIn index len).call m.fanIn number).runs
      (left ++ (group.flatten ++ right)) = group.map (List.take (min len k)) := by
    have hslices := map_of_slices (Nat.min_le_left len k) left right hgroup
    rw [hcount, hleft] at hslices
    exact hslices
  refine performs_singleton m left right (by omega) (by omega) ?_ ?_ hleft.symm ?_ ?_ hscratch
  · intro s hs
    obtain ⟨j, hj, rfl⟩ := List.mem_map.1 hs
    have hfits : (j + 1) * len ≤ m.fanIn.count * len :=
      Nat.mul_le_mul_right len (List.mem_range.1 hj)
    rw [Nat.add_mul, Nat.one_mul, Nat.mul_comm m.fanIn.count] at hfits
    simp only [Plan.roundOf, List.length_append, hflatten, hleft]
    omega
  · rw [hruns]
    exact map_take_of_forall_length hgroup k
  · rw [hflatten]
    exact Nat.min_comm _ _
  · change 0 < min (len * m.fanIn.count) k
    omega

/-- The calls for the groups of a round from one number on. -/
theorem performs_groups (hk : 0 < k) (hlen : 0 < len) {r : PlanRound}
    (hr : r = Plan.roundOf total k m.fanIn index len)
    (number : Nat)
    {groups : List (List (List α))}
    (hgroups : ∀ group ∈ groups, group.length = m.fanIn.count ∧
      ∀ segment ∈ group, segment.length = len)
    {left : List α} (hleft : left.length = number * (len * m.fanIn.count))
    (right : List α)
    {scratch : List α} (hscratch : scratch.length = k) :
    ∃ other, other.length = k ∧
      Performs m ⟨left ++ (groups.flatten.flatten ++ right), scratch⟩
        ((List.range' number groups.length).map (r.call m.fanIn))
        ⟨left ++ ((groups.map (gather m.cmp k)).flatten ++ right), other⟩ := by
  -- along the groups; those done stand in front, as long as they were before
  induction groups generalizing number left scratch with
  | nil => exact ⟨scratch, hscratch, .nil _⟩
  | cons group groups ih =>
      rw [List.forall_mem_cons] at hgroups
      obtain ⟨middle, hmiddle, hfirst⟩ := performs_group m hk hlen hr number
        hgroups.1.1 hgroups.1.2 hleft (groups.flatten.flatten ++ right) hscratch
      have hdone : (left ++ gather m.cmp k group).length =
          (number + 1) * (len * m.fanIn.count) := by
        rw [List.length_append, length_gather, length_flatten_of_forall hgroups.1.2,
          hgroups.1.1, hleft]
        ring
      obtain ⟨other, hother, hrest⟩ := ih (number + 1) hgroups.2 hdone hmiddle
      refine ⟨other, hother, ?_⟩
      rw [List.length_cons, List.range'_succ, List.map_cons, List.map_cons, List.flatten_cons,
        List.flatten_cons, List.flatten_append, List.append_assoc, List.append_assoc]
      rw [List.append_assoc, List.append_assoc] at hrest
      exact hfirst.append hrest

/-- **The merges of a round go through, and take the segments to longer ones.** -/
theorem inPlace_runRound (hk : 0 < k) (hlen : 0 < len) (index : Nat) {lower : List Nat}
    {segments : List (List α)}
    (hsegments : segments.map List.length = Plan.tailOf (len :: lower) total) :
    ∃ after : List (List α),
      after.map List.length = Plan.tailOf (len * m.fanIn.count :: len :: lower) total ∧
      InPlace m k (m.runRound (Plan.roundOf total k m.fanIn index len))
        ((Plan.roundOf total k m.fanIn index len).calls m.fanIn)
        segments.flatten after.flatten := by
  obtain ⟨groups, rest, rfl, hcount, hmembers, hlengths⟩ :=
    exists_round_groups (k := k) m.fanIn hsegments
  refine ⟨groups.map (gather m.cmp k) ++ rest, hlengths m.cmp, ?_⟩
  rw [List.flatten_append, List.flatten_append]
  constructor
  · exact ⟨_, run_runRound m hk hlen index rest.flatten hcount hmembers⟩
  · intro scratch hscratch
    have hperforms := performs_groups m hk hlen
      (rfl : _ = Plan.roundOf total k m.fanIn index len) 0 hmembers
      (List.length_nil.trans (Nat.zero_mul _).symm) rest.flatten hscratch
    rw [hcount, ← List.range_eq_range'] at hperforms
    exact hperforms

end Round

/-- The merges of all rounds from one block length on. -/
theorem inPlace_rounds (hk : 0 < k) {len total : Nat} (hlen : 0 < len) (start : Nat)
    (lower : List Nat) {segments : List (List α)}
    (hsegments : segments.map List.length = Plan.tailOf (len :: lower) total)
    {rounds : List PlanRound}
    (hrounds : rounds = (Plan.levels total m.fanIn len).dropLast.mapIdx fun i n =>
      Plan.roundOf total k m.fanIn (start + i) n) :
    ∃ after : List (List α),
      after.map List.length =
        Plan.tailOf ((Plan.levels total m.fanIn len).reverse ++ lower) total ∧
      InPlace m k (rounds.forM m.runRound) (rounds.flatMap fun r => r.calls m.fanIn)
        segments.flatten after.flatten := by
  subst hrounds
  refine exists_after_rounds
    (fun rounds segments after => InPlace m k (rounds.forM m.runRound)
      (rounds.flatMap fun r => r.calls m.fanIn) segments.flatten after.flatten)
    (fun segments => .of_run rfl) ?_ hlen start lower hsegments
  intro index len hlen lower segments hsegments
  obtain ⟨middle, hlengths, hround⟩ := inPlace_runRound m hk hlen index hsegments
  refine ⟨middle, hlengths, ?_⟩
  intro rounds after hrest
  exact hround.bind hrest

/-! ### The calls of the folds -/

/-- The call of a fold, with what is not folded yet behind the two segments. -/
theorem performs_fold (hk : 0 < k) {front : List α} (hfront : 0 < front.length)
    (block right : List α) {scratch : List α} (hscratch : scratch.length = k) :
    ∃ other, other.length = k ∧
      Performs m ⟨[front, block].flatten ++ right, scratch⟩ [(Plan.foldOf k front block).call]
        ⟨gather m.cmp k [front, block] ++ right, other⟩ := by
  have hflatten : [front, block].flatten.length = front.length + block.length := by
    simp
  have hruns : (Plan.foldOf k front block).call.runs ([front, block].flatten ++ right) =
      [front.take k, block.take k] := by
    simp only [MergeCall.runs, PlanFold.call, Plan.foldOf, Slice.of, List.map_cons, List.map_nil,
      List.flatten_cons, List.flatten_nil, List.append_nil, List.drop_zero, List.append_assoc,
      List.drop_left]
    rw [List.take_append_of_le_length (Nat.min_le_left _ _),
      List.take_append_of_le_length (Nat.min_le_left _ _), take_min_length, take_min_length]
  have hcapacity : (Plan.foldOf k front block).call.capacity =
      min k [front, block].flatten.length := by
    rw [hflatten, PlanFold.call, Plan.foldOf]
    dsimp only
    omega
  refine performs_singleton m [] right (Nat.le_refl 2) m.fanIn.two_le_count ?_ ?_ rfl
    hcapacity ?_ hscratch
  · simp only [PlanFold.call, Plan.foldOf, List.forall_mem_cons, List.nil_append,
      List.length_append, hflatten]
    exact ⟨by omega, by omega, by simp⟩
  · rw [List.nil_append, hruns]
    simp [List.take_take]
  · rw [hcapacity, hflatten]
    omega

/-- **The merge of a fold goes through, and gathers the first two segments.** -/
theorem inPlace_runFold (hk : 0 < k) {front : List α} (hfront : 0 < front.length)
    (block : List α) (blocks : List (List α)) :
    InPlace m k (m.runFold (Plan.foldOf k front block)) [(Plan.foldOf k front block).call]
      (front :: block :: blocks).flatten
      (gather m.cmp k [front, block] :: blocks).flatten := by
  constructor
  · exact ⟨_, run_runFold m hk hfront block blocks⟩
  · intro scratch hscratch
    have hperforms := performs_fold m hk hfront block blocks.flatten hscratch
    simpa using hperforms

/-- The merges of all folds, the first into the segment `front`. -/
theorem inPlace_folds (hk : 0 < k) {front : List α} (hfront : 0 < front.length)
    (blocks : List (List α)) {folds : List PlanFold}
    (hfolds : folds =
      Plan.foldsFrom k front.length (min front.length k) (blocks.map List.length)) :
    InPlace m k (folds.forM m.runFold) (folds.map PlanFold.call)
      (front :: blocks).flatten (foldSegments m.cmp k front blocks) := by
  induction blocks generalizing front folds with
  | nil =>
      subst hfolds
      rw [List.flatten_singleton]
      exact .of_run rfl
  | cons block blocks ih =>
      have hpos : 0 < (gather m.cmp k [front, block]).length :=
        length_gather_pair_pos hfront block
      rw [List.map_cons, Plan.foldsFrom_gather m.cmp] at hfolds
      subst hfolds
      exact (inPlace_runFold m hk hfront block blocks).bind (ih hpos rfl)

/-! ### The calls of a plan -/

/-- **All merges of a plan go through, and leave what carrying it out leaves.** -/
theorem inPlace_carryOut (hk : 0 < k) {blockLen : Nat} (hblock : 0 < blockLen) {data : List α}
    (hdata : 0 < data.length) {plan : Plan}
    (hplan : plan = Plan.ofBlocks data.length blockLen k m.fanIn) :
    ∃ after, InPlace m k (m.carryOut plan) (plan.calls m.fanIn) data after := by
  have hplanned : plan.rounds =
      (Plan.levels data.length m.fanIn blockLen).dropLast.mapIdx fun i n =>
        Plan.roundOf data.length k m.fanIn (0 + i) n := by
    simp only [Nat.zero_add]
    rw [hplan]
    rfl
  obtain ⟨segments, hlengths, hrounds⟩ :=
    inPlace_rounds m hk hblock 0 [] (map_length_chunks hblock data) hplanned
  rw [flatten_chunks hblock] at hrounds
  rw [List.append_nil] at hlengths
  obtain ⟨front, blocks, rfl, hfront⟩ := exists_first_segment hblock hdata hlengths
  refine ⟨foldSegments m.cmp k front blocks, ?_⟩
  have hfolds : plan.folds =
      Plan.foldsFrom k front.length (min front.length k) (blocks.map List.length) := by
    have htail : plan.folds = Plan.foldsOf k ((front :: blocks).map List.length) := by
      rw [hplan, hlengths]
      rfl
    exact htail
  have hrest := inPlace_folds m hk hfront blocks hfolds
  rw [RunMerger.carryOut]
  refine hrounds.bind ?_
  dsimp only
  split
  · exact hrest
  · exact (InPlace.of_run (BufferM.run_emit _ _)).bind hrest

end Calls

/-! ### Refused and completed selections -/

section Outcome

variable (m : RunMerger α) {blockLen totalLen k : Nat} {buffer : List α}

theorem run_selectInPlace_of_short (hshort : buffer.length < totalLen) :
    (m.selectInPlace blockLen totalLen k).run buffer =
      ⟨.error (.shortBuffer totalLen buffer.length), buffer, []⟩ := by
  rw [RunMerger.selectInPlace, BufferM.run_bind_of_silent (BufferM.run_contents _), if_pos hshort,
    BufferM.run_refuse]

theorem run_selectInPlace_of_empty (htotal : totalLen ≤ buffer.length) :
    (m.selectInPlace 0 totalLen k).run buffer = ⟨.error .emptyBlocks, buffer, []⟩ := by
  rw [RunMerger.selectInPlace, BufferM.run_bind_of_silent (BufferM.run_contents _),
    if_neg (by omega), Plan.make, if_pos rfl]
  rfl

/-- What a plan works on: all of the data, with a scratch for as many elements as it selects. -/
def Plan.workspace (p : Plan) (data : List α) : Workspace α where
  data := data
  scratch := data.take p.k

/--
The merges of the plan for the first `totalLen` elements of the buffer go through in their places,
and what they leave there, with the rest of the buffer behind it, is `after`.
-/
structure Plan.GoesThrough (m : RunMerger α) (p : Plan) (buffer after : List α) : Prop where
  fits : p.k ≤ (buffer.take p.totalLen).length
  merges : ∃ last : Workspace α,
    Performs m (p.workspace (buffer.take p.totalLen)) (p.calls m.fanIn) last ∧
    after = last.data ++ buffer.drop p.totalLen

/-- **A selection of something goes through.** -/
theorem selectInPlace_goesThrough (hblock : 0 < blockLen) (htotal : totalLen ≤ buffer.length)
    (hk : 0 < min k totalLen) {plan : Plan}
    (hplan : plan = Plan.ofBlocks totalLen blockLen (min k totalLen) m.fanIn) :
    ((m.selectInPlace blockLen totalLen k).run buffer).result = .ok (min k totalLen) ∧
    plan.GoesThrough m buffer ((m.selectInPlace blockLen totalLen k).run buffer).buffer := by
  have hlength : (buffer.take totalLen).length = totalLen := List.length_take_of_le htotal
  have hpos : 0 < (buffer.take totalLen).length := by
    rw [hlength]
    omega
  have hcount : plan.k = min k totalLen := by
    rw [hplan, Plan.k_ofBlocks]
  have hcovered : plan.totalLen = totalLen := by
    rw [hplan]
    rfl
  have hplan' : plan =
      Plan.ofBlocks (buffer.take totalLen).length blockLen (min k totalLen) m.fanIn := by
    rw [hlength, hplan]
  obtain ⟨after, hinPlace⟩ := inPlace_carryOut m hk hblock hpos hplan'
  obtain ⟨events, hcarry⟩ := hinPlace.run
  have hscratch : ((buffer.take totalLen).take plan.k).length = min k totalLen := by
    rw [hcount]
    exact List.length_take_of_le (by omega)
  obtain ⟨other, -, hperforms⟩ := hinPlace.performs _ hscratch
  rw [run_selectInPlace_of_carryOut m hblock htotal hk hplan hcarry]
  constructor
  · rfl
  · constructor
    · rw [hcount, hcovered, hlength]
      exact Nat.min_le_right _ _
    · rw [hcovered]
      exact ⟨_, hperforms, rfl⟩

/--
**A selection is refused for a buffer that is too short or for blocks without elements, which
changes nothing, and in no other case. Otherwise it gives as many elements as were asked for, or
all there are; every merge of its plan goes through.**
-/
theorem selectInPlace_outcome (buffer : List α) (blockLen totalLen k : Nat) :
    (((m.selectInPlace blockLen totalLen k).run buffer).result =
        .error (.shortBuffer totalLen buffer.length) ↔ buffer.length < totalLen) ∧
    (((m.selectInPlace blockLen totalLen k).run buffer).result = .error .emptyBlocks ↔
        totalLen ≤ buffer.length ∧ blockLen = 0) ∧
    (buffer.length < totalLen ∨ blockLen = 0 →
      ((m.selectInPlace blockLen totalLen k).run buffer).buffer = buffer) ∧
    (totalLen ≤ buffer.length → 0 < blockLen →
      ((m.selectInPlace blockLen totalLen k).run buffer).result = .ok (min k totalLen) ∧
      ∃ plan, Plan.make totalLen blockLen k m.fanIn = .ok plan ∧
        plan.k = min k totalLen ∧
        (plan.k = 0 → ((m.selectInPlace blockLen totalLen k).run buffer).buffer = buffer) ∧
        (0 < plan.k →
          plan.GoesThrough m buffer
            ((m.selectInPlace blockLen totalLen k).run buffer).buffer)) := by
  by_cases hshort : buffer.length < totalLen
  · rw [run_selectInPlace_of_short m hshort]
    refine ⟨by simp [hshort], by simp [hshort], fun _ => rfl, ?_⟩
    intro htotal
    omega
  · have htotal : totalLen ≤ buffer.length := by omega
    rcases Nat.eq_zero_or_pos blockLen with hzero | hblock
    · subst hzero
      rw [run_selectInPlace_of_empty m htotal]
      refine ⟨by simp [hshort], by simp [htotal], fun _ => rfl, ?_⟩
      intro _ hblock
      omega
    · have hmake := Plan.make_eq_ok hblock totalLen k m.fanIn
      have hcount := Plan.k_ofBlocks totalLen blockLen (min k totalLen) m.fanIn
      have hresult : ((m.selectInPlace blockLen totalLen k).run buffer).result =
          .ok (min k totalLen) := by
        rcases Nat.eq_zero_or_pos (min k totalLen) with hk | hk
        · rw [run_selectInPlace_of_eq_zero m hblock htotal hk, hk]
        · exact (selectInPlace_goesThrough m hblock htotal hk rfl).1
      rw [hresult]
      refine ⟨by simp [hshort], by simp [hblock.ne'], by omega, ?_⟩
      intro _ _
      refine ⟨rfl, _, hmake, hcount, ?_, ?_⟩
      · intro hk
        rw [hcount] at hk
        rw [run_selectInPlace_of_eq_zero m hblock htotal hk]
      · intro hk
        rw [hcount] at hk
        exact (selectInPlace_goesThrough m hblock htotal hk rfl).2

/-- Two rounds and a fold of single elements under a comparator without laws go through. -/
theorem selectInPlace_of_five_goes_through :
    ∃ last, Performs ⟨Comparator.alwaysBefore, .two⟩ ⟨[5, 1, 4, 2, 3], [5, 1, 4]⟩
        [⟨[⟨0, 1⟩, ⟨1, 1⟩], 0, 2, false⟩, ⟨[⟨2, 1⟩, ⟨3, 1⟩], 2, 2, false⟩,
          ⟨[⟨0, 2⟩, ⟨2, 2⟩], 0, 3, false⟩, ⟨[⟨0, 3⟩, ⟨4, 1⟩], 0, 3, true⟩] last ∧
      (((⟨Comparator.alwaysBefore, .two⟩ : RunMerger Nat).selectInPlace 1 5 3).run
        [5, 1, 4, 2, 3, 9]).buffer = last.data ++ [9] := by
  obtain ⟨-, -, -, haccepted⟩ := selectInPlace_outcome
    ⟨Comparator.alwaysBefore, .two⟩ [5, 1, 4, 2, 3, 9] 1 5 3
  obtain ⟨-, plan, hmake, -, -, hthrough⟩ := haccepted (by decide) Nat.one_pos
  have hplan : Plan.make 5 1 3 .two = .ok
      ⟨5, 3, [⟨0, 1, 2, 2, 1, 2⟩, ⟨1, 2, 4, 1, 2, 3⟩], [4, 1], [⟨4, 1, 1, 3, 3⟩]⟩ := by
    simp [Plan.make, Plan.levels_cons, Plan.roundsOf, Plan.roundOf, Plan.tailOf, Plan.foldsOf,
      Plan.foldsFrom, FanIn.count]
  rw [hplan, Except.ok.injEq] at hmake
  subst hmake
  exact (hthrough (by decide)).merges

end Outcome

end KWayMerge
