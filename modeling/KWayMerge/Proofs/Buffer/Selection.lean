import KWayMerge.Proofs.Buffer.Folds

/-!
# What a selection leaves in the buffer

The base blocks of a buffer are the segments with which the first round of a plan begins, and the
segments that the last round leaves are the tail blocks that are folded. So a selection, whatever
the comparator and the contents of the buffer, is one long gathering of the base blocks into a
single segment.

**Results.**
* `run_carryOut`: a plan gathers all base blocks into one segment.
* `run_selectInPlace`: the result, the buffer and the report of a selection.
* `run_select`: the winners that it gives.
-/

namespace KWayMerge

variable {α : Type}

/-! ### The blocks before the first round and after the last -/

/-- **The chunks of a buffer have the lengths that a plan without rounds would fold.** -/
theorem map_length_chunks {len : Nat} (hlen : 0 < len) (xs : List α) :
    (chunks len xs).map List.length = Plan.tailOf [len] xs.length := by
  induction xs using chunks_induction hlen with
  | nil => simp [Plan.tailOf]
  | step xs hxs ih =>
      have hpos : 0 < xs.length := List.length_pos_iff.2 hxs
      rw [chunks_of_ne_nil hlen hxs, List.map_cons, ih, List.length_drop, List.length_take]
      by_cases hshort : xs.length < len
      · have hrest : xs.length - len = 0 := by omega
        rw [Nat.min_eq_right (Nat.le_of_lt hshort), hrest]
        simp only [Plan.tailOf, Nat.zero_div, Nat.zero_mod, Nat.div_eq_of_lt hshort,
          Nat.mod_eq_of_lt hshort, List.replicate_zero, List.nil_append, if_true]
        rw [if_neg (by omega)]
      · have hle : len ≤ xs.length := by omega
        have hdiv : xs.length / len = (xs.length - len) / len + 1 := by
          rw [← Nat.add_div_right _ hlen, Nat.sub_add_cancel hle]
        rw [Nat.min_eq_left hle]
        simp only [Plan.tailOf]
        rw [hdiv, List.replicate_succ, Nat.mod_eq_sub_mod hle, List.cons_append]

namespace Plan

theorem pos_of_mem_levels {total len : Nat} {f : FanIn} (hlen : 0 < len) :
    ∀ n ∈ levels total f len, 0 < n := by
  induction len using levels.induct total f with
  | case1 len h ih =>
      rw [levels_cons, if_pos h, List.forall_mem_cons]
      exact ⟨hlen, ih (f.mul_count_pos hlen)⟩
  | case2 len h =>
      rw [levels_cons, if_neg h]
      simpa using hlen

theorem pos_of_mem_tailOf {lens : List Nat} (hlens : ∀ len ∈ lens, 0 < len) {rest : Nat} :
    ∀ n ∈ tailOf lens rest, 0 < n := by
  induction lens generalizing rest with
  | nil =>
      intro n hn
      rw [tailOf] at hn
      split at hn
      · simp at hn
      · rw [List.mem_singleton] at hn
        omega
  | cons len lens ih =>
      rw [List.forall_mem_cons] at hlens
      intro n hn
      rw [tailOf, List.mem_append] at hn
      rcases hn with hn | hn
      · rw [List.eq_of_mem_replicate hn]
        exact hlens.1
      · exact ih hlens.2 n hn

/-- The tail blocks of a plan: what its last round leaves. -/
def leftover (total blockLen : Nat) (f : FanIn) : List Nat :=
  tailOf (levels total f blockLen).reverse total

/-- The plan of the first `k` of `total` elements, for blocks with elements. -/
def ofBlocks (total blockLen k : Nat) (f : FanIn) : Plan where
  totalLen := total
  k := k
  rounds := roundsOf total k f (levels total f blockLen)
  tailBlocks := leftover total blockLen f
  folds := foldsOf k (leftover total blockLen f)

@[simp] theorem k_ofBlocks (total blockLen k : Nat) (f : FanIn) :
    (ofBlocks total blockLen k f).k = k :=
  rfl

theorem pos_of_mem_leftover {total blockLen : Nat} {f : FanIn} (hblock : 0 < blockLen) :
    ∀ n ∈ leftover total blockLen f, 0 < n := by
  refine pos_of_mem_tailOf ?_
  intro len hlen
  exact pos_of_mem_levels hblock len (List.mem_reverse.1 hlen)

theorem make_eq_ok {blockLen : Nat} (hblock : 0 < blockLen) (total k : Nat) (f : FanIn) :
    make total blockLen k f = .ok (ofBlocks total blockLen (min k total) f) := by
  rw [make, if_neg (by omega)]
  rfl

end Plan

/-! ### Carrying out a plan -/

section CarryOut

variable (m : RunMerger α) {k : Nat}

def Plan.roundEvents (p : Plan) : List Event :=
  p.rounds.map PlanRound.event

/-- The report that folds are about to begin, if there are any. -/
def Plan.remainderEvents (p : Plan) : List Event :=
  if p.folds.isEmpty then [] else [.foldingRemainder p.tailBlocks]

/-- The first segment that is folded into holds elements, so no fold has a capacity of zero. -/
theorem exists_first_segment
    {total blockLen : Nat} {f : FanIn}
    (hblock : 0 < blockLen)
    (htotal : 0 < total)
    {segments : List (List α)}
    (hsegments : segments.map List.length = Plan.leftover total blockLen f) :
    ∃ front blocks, segments = front :: blocks ∧ 0 < front.length := by
  cases segments with
  | nil =>
      have hsum : sumCounts (Plan.leftover total blockLen f) = total := Plan.sumCounts_tailOf _ _
      rw [← hsegments, List.map_nil, sumCounts_nil] at hsum
      omega
  | cons front blocks =>
      have hmem : front.length ∈ (front :: blocks).map List.length := List.mem_cons_self
      rw [hsegments] at hmem
      exact ⟨front, blocks, rfl, Plan.pos_of_mem_leftover hblock front.length hmem⟩

/-- Carrying out a plan, from the segments that its rounds leave. -/
theorem run_carryOut_of_rounds
    (hk : 0 < k)
    {plan : Plan}
    (hof : plan.folds = Plan.foldsOf k plan.tailBlocks)
    {front : List α} {blocks : List (List α)}
    (hfront : 0 < front.length)
    (htail : (front :: blocks).map List.length = plan.tailBlocks)
    {buffer : List α}
    (hrounds : (plan.rounds.forM m.runRound).run buffer =
      ⟨.ok (), (front :: blocks).flatten, plan.roundEvents⟩) :
    (m.carryOut plan).run buffer =
      ⟨.ok (), foldSegments m.cmp k front blocks,
        plan.roundEvents ++ (plan.remainderEvents ++ foldEvents m.cmp k front blocks)⟩ := by
  have hfolds : (plan.folds.forM m.runFold).run (front :: blocks).flatten =
      ⟨.ok (), foldSegments m.cmp k front blocks, foldEvents m.cmp k front blocks⟩ := by
    rw [hof, ← htail]
    exact run_folds m hk hfront blocks
  rw [RunMerger.carryOut]
  refine BufferM.run_bind_of_run hrounds ?_
  rw [Plan.remainderEvents]
  dsimp only
  split
  · exact hfolds
  · exact BufferM.run_bind_of_run (BufferM.run_emit _ _) hfolds

/-- **Carrying out a plan gathers all base blocks into one segment.** -/
theorem run_carryOut
    (hk : 0 < k)
    {blockLen : Nat}
    (hblock : 0 < blockLen)
    {buffer : List α}
    (hbuffer : 0 < buffer.length)
    {plan : Plan}
    (hplan : plan = Plan.ofBlocks buffer.length blockLen k m.fanIn) :
    ∃ front blocks,
      Gathers m.cmp k (chunks blockLen buffer) (front :: blocks) ∧
      (front :: blocks).map List.length = plan.tailBlocks ∧
      (m.carryOut plan).run buffer =
        ⟨.ok (), foldSegments m.cmp k front blocks,
          plan.roundEvents ++ (plan.remainderEvents ++ foldEvents m.cmp k front blocks)⟩ := by
  obtain ⟨after, hlengths, hgathers, hrun⟩ :=
    run_rounds m hk hblock 0 [] (map_length_chunks hblock buffer)
  rw [List.append_nil] at hlengths
  rw [flatten_chunks hblock] at hrun
  simp only [Nat.zero_add] at hrun
  obtain ⟨front, blocks, rfl, hfront⟩ := exists_first_segment hblock hbuffer hlengths
  subst hplan
  exact ⟨front, blocks, hgathers, hlengths,
    run_carryOut_of_rounds m hk rfl hfront hlengths hrun⟩

end CarryOut

/-! ### A whole selection -/

section Selection

variable (m : RunMerger α) {blockLen totalLen k : Nat} {buffer : List α}

def Plan.clampEvents (requested : Nat) (p : Plan) : List Event :=
  if p.k < requested then [.clamped requested p.k] else []

/-- What a selection does once its request has been accepted and cut down. -/
theorem run_selectInPlace_of_accepted (hblock : 0 < blockLen)
    (htotal : totalLen ≤ buffer.length) {plan : Plan}
    (hplan : plan = Plan.ofBlocks totalLen blockLen (min k totalLen) m.fanIn)
    {result : Except Fault Nat} {after : List α} {events : List Event}
    (hbody : (if plan.k = 0 then
          (pure 0 : BufferM α Nat)
        else do
          BufferM.onFront totalLen (m.carryOut plan)
          pure plan.outputLen).run buffer = ⟨result, after, events⟩) :
    (m.selectInPlace blockLen totalLen k).run buffer =
      ⟨result, after, plan.clampEvents k ++ events⟩ := by
  rw [RunMerger.selectInPlace, BufferM.run_bind_of_silent (BufferM.run_contents _),
    if_neg (by omega), Plan.make_eq_ok hblock, ← hplan,
    BufferM.run_bind_of_silent (BufferM.run_ofExcept _ _), Plan.clampEvents]
  dsimp only
  by_cases hclamp : plan.k < k
  · rw [if_pos hclamp, if_pos hclamp]
    exact BufferM.run_bind_of_run (BufferM.run_emit _ _) hbody
  · rw [if_neg hclamp, if_neg hclamp]
    exact hbody

/-- **A selection of nothing leaves the buffer as it was.** -/
theorem run_selectInPlace_of_eq_zero (hblock : 0 < blockLen)
    (htotal : totalLen ≤ buffer.length) (hk : min k totalLen = 0) :
    (m.selectInPlace blockLen totalLen k).run buffer =
      ⟨.ok 0, buffer, (Plan.ofBlocks totalLen blockLen 0 m.fanIn).clampEvents k⟩ := by
  rw [← List.append_nil (Plan.clampEvents _ _)]
  refine run_selectInPlace_of_accepted m hblock htotal (by rw [hk]) ?_
  rw [if_pos (Plan.k_ofBlocks _ _ _ _), BufferM.run_pure]

/-- A selection of something carries out its plan on the front and leaves the rest alone. -/
theorem run_selectInPlace_of_carryOut (hblock : 0 < blockLen) (htotal : totalLen ≤ buffer.length)
    (hk : 0 < min k totalLen) {plan : Plan}
    (hplan : plan = Plan.ofBlocks totalLen blockLen (min k totalLen) m.fanIn)
    {after : List α} {events : List Event}
    (hcarry : (m.carryOut plan).run (buffer.take totalLen) = ⟨.ok (), after, events⟩) :
    (m.selectInPlace blockLen totalLen k).run buffer =
      ⟨.ok (min k totalLen), after ++ buffer.drop totalLen, plan.clampEvents k ++ events⟩ := by
  have hcount : plan.k = min k totalLen := by
    rw [hplan, Plan.k_ofBlocks]
  refine run_selectInPlace_of_accepted m hblock htotal hplan ?_
  rw [if_neg (by omega), BufferM.run_bind, BufferM.run_onFront, hcarry]
  dsimp only
  rw [BufferM.run_pure, List.append_nil, Plan.outputLen, hcount]

/-- **A selection gathers the base blocks into one segment and leaves the rest alone.** -/
theorem run_selectInPlace (hblock : 0 < blockLen) (htotal : totalLen ≤ buffer.length)
    (hk : 0 < min k totalLen) {plan : Plan}
    (hplan : plan = Plan.ofBlocks totalLen blockLen (min k totalLen) m.fanIn) :
    ∃ front blocks,
      Gathers m.cmp (min k totalLen) (chunks blockLen (buffer.take totalLen)) (front :: blocks) ∧
      (front :: blocks).map List.length = plan.tailBlocks ∧
      (m.selectInPlace blockLen totalLen k).run buffer =
        ⟨.ok (min k totalLen),
          foldSegments m.cmp (min k totalLen) front blocks ++ buffer.drop totalLen,
          plan.clampEvents k ++ (plan.roundEvents ++
            (plan.remainderEvents ++ foldEvents m.cmp (min k totalLen) front blocks))⟩ := by
  have hlength : (buffer.take totalLen).length = totalLen := List.length_take_of_le htotal
  have hpos : 0 < (buffer.take totalLen).length := by
    rw [hlength]
    omega
  have hplan' : plan =
      Plan.ofBlocks (buffer.take totalLen).length blockLen (min k totalLen) m.fanIn := by
    rw [hlength, hplan]
  obtain ⟨front, blocks, hgathers, hlengths, hrun⟩ := run_carryOut m hk hblock hpos hplan'
  exact ⟨front, blocks, hgathers, hlengths,
    run_selectInPlace_of_carryOut m hblock htotal hk hplan hrun⟩

/-- The winners are what a selection in place leaves at the front. -/
theorem run_select {count : Nat} {after rest : List α} {events : List Event}
    (hrun : (m.selectInPlace blockLen totalLen k).run buffer = ⟨.ok count, after ++ rest, events⟩)
    (hcount : count ≤ after.length) :
    (m.select blockLen totalLen k).run buffer =
      ⟨.ok (after.take count), after ++ rest, events⟩ := by
  rw [← List.append_nil events, RunMerger.select]
  refine BufferM.run_bind_of_run hrun ?_
  rw [BufferM.run_bind_of_silent (BufferM.run_contents _), BufferM.run_pure,
    List.take_append_of_le_length hcount]

end Selection
end KWayMerge
