import KWayMerge.Merge.Verified
import KWayMerge.Proofs.Merge.Disorder

/-!
# Verified merges

A verified merge looks at neighbours in one run after the other, and stops at the first pair that
is out of order. Under a total preorder it thereby refuses all runs in which any element precedes
one that stands before it, near or far, and it names the first such run with the length of its
longest ordered front. This comes before the number of runs and the capacity are looked at. Runs
that pass are merged as if they had not been verified, and come out in order.

**Results.**
* `verify_eq_error_iff` and `verify_eq_ok_iff`: what is refused, and with which report.
* `bind_verify_eq_error_iff` and `bind_verify_eq_ok_iff`: what an operation answers behind a
  verification.
* `verified_merges_report_first_disorder`: what the three verified merges answer.
-/

namespace KWayMerge

universe u v

variable {α : Type u}

/-! ### The first run that is out of order -/

/--
Run number `run` is the first that is out of order, and `index` is the length of its longest
ordered front.
-/
structure FirstDisorder (cmp : Comparator α) (runs : List (List α)) (run index : Nat) : Prop where
  disordered : cmp.Disordered (runs.getD run [])
  before : ∀ other < run, ¬ cmp.Disordered (runs.getD other [])
  isGreatest : IsGreatest (cmp.orderedFronts (runs.getD run [])) index

section FirstDisorder

variable {cmp : Comparator α} [Std.TransCmp cmp] {run : List α} {runs : List (List α)}
  {n index : Nat}

theorem firstDisorder_iff :
    FirstDisorder cmp runs n index ↔
      cmp.firstInversion? (runs.getD n []) = some index ∧
        ∀ other < n, cmp.firstInversion? (runs.getD other []) = none := by
  simp only [Comparator.firstInversion?_eq_some_iff,
    Comparator.firstInversion?_eq_none_iff_ordered, ← Comparator.not_disordered_iff_ordered]
  constructor
  · intro h
    exact ⟨⟨h.disordered, h.isGreatest⟩, h.before⟩
  · rintro ⟨⟨hdisordered, hgreatest⟩, hbefore⟩
    exact ⟨hdisordered, hbefore, hgreatest⟩

theorem firstDisorder_cons_zero :
    FirstDisorder cmp (run :: runs) 0 index ↔ cmp.firstInversion? run = some index := by
  rw [firstDisorder_iff, List.getD_cons_zero]
  exact and_iff_left fun other hother => absurd hother (Nat.not_lt_zero other)

theorem firstDisorder_cons_succ :
    FirstDisorder cmp (run :: runs) (n + 1) index ↔
      cmp.firstInversion? run = none ∧ FirstDisorder cmp runs n index := by
  rw [firstDisorder_iff, firstDisorder_iff, List.getD_cons_succ, and_left_comm]
  refine and_congr_right fun _ => ?_
  constructor
  · intro h
    exact ⟨h 0 (Nat.succ_pos n), fun other hother => h (other + 1) (Nat.succ_lt_succ hother)⟩
  · rintro ⟨hfirst, h⟩ other hother
    cases other with
    | zero => exact hfirst
    | succ other => exact h other (Nat.lt_of_succ_lt_succ hother)

end FirstDisorder

/-! ### Verification -/

section Verification

variable {m : RunMerger α} [Std.TransCmp m.cmp] {runs : List (List α)}

theorem verifyFrom_eq_ok_iff {i : Nat} :
    m.verifyFrom i runs = .ok () ↔ ∀ run ∈ runs, m.cmp.Ordered run := by
  induction runs generalizing i with
  | nil => simp [RunMerger.verifyFrom]
  | cons run runs ih =>
      rw [RunMerger.verifyFrom, List.forall_mem_cons,
        ← Comparator.firstInversion?_eq_none_iff_ordered]
      cases m.cmp.firstInversion? run with
      | none => simpa using ih
      | some index => simp

/-- **Runs pass exactly if all are in order.** -/
theorem verify_eq_ok_iff : m.verify runs = .ok () ↔ ∀ run ∈ runs, m.cmp.Ordered run :=
  verifyFrom_eq_ok_iff

theorem verifyFrom_eq_error_iff {i : Nat} {fault : Fault} :
    m.verifyFrom i runs = .error fault ↔
      ∃ n index, fault = .disorderedRun (i + n) index ∧ FirstDisorder m.cmp runs n index := by
  induction runs generalizing i with
  | nil =>
      simp only [RunMerger.verifyFrom, reduceCtorEq, false_iff]
      rintro ⟨n, index, -, h⟩
      exact Comparator.not_disordered_iff_ordered.2 List.Pairwise.nil h.disordered
  | cons run runs ih =>
      rw [RunMerger.verifyFrom]
      cases hrun : m.cmp.firstInversion? run with
      | some index =>
          simp only [Except.error.injEq]
          constructor
          · rintro rfl
            exact ⟨0, index, rfl, firstDisorder_cons_zero.2 hrun⟩
          · rintro ⟨n, other, rfl, h⟩
            cases n with
            | zero =>
                rw [firstDisorder_cons_zero, hrun, Option.some.injEq] at h
                rw [h, Nat.add_zero]
            | succ n =>
                rw [firstDisorder_cons_succ, hrun] at h
                exact absurd h.1 (Option.some_ne_none index)
      | none =>
          dsimp only
          rw [ih]
          constructor
          · rintro ⟨n, index, rfl, h⟩
            exact ⟨n + 1, index, by rw [Nat.succ_add_eq_add_succ],
              firstDisorder_cons_succ.2 ⟨hrun, h⟩⟩
          · rintro ⟨n, index, rfl, h⟩
            cases n with
            | zero =>
                rw [firstDisorder_cons_zero, hrun] at h
                exact absurd h.symm (Option.some_ne_none index)
            | succ n =>
                exact ⟨n, index, by rw [Nat.succ_add_eq_add_succ],
                  (firstDisorder_cons_succ.1 h).2⟩

/-- **What is refused is the first run that is out of order.** -/
theorem verify_eq_error_iff {n index : Nat} :
    m.verify runs = .error (.disorderedRun n index) ↔ FirstDisorder m.cmp runs n index := by
  rw [RunMerger.verify, verifyFrom_eq_error_iff]
  constructor
  · rintro ⟨n', index', hfault, h⟩
    rw [Nat.zero_add] at hfault
    obtain ⟨rfl, rfl⟩ := Fault.disorderedRun.inj hfault
    exact h
  · intro h
    exact ⟨n, index, by rw [Nat.zero_add], h⟩

theorem exists_firstDisorder_iff :
    (∃ n index, FirstDisorder m.cmp runs n index) ↔ ∃ run ∈ runs, m.cmp.Disordered run := by
  constructor
  · rintro ⟨n, index, h⟩
    have hdisordered := h.disordered
    cases hrun : runs.getD n [] with
    | nil =>
        rw [hrun, ← Comparator.not_ordered_iff_disordered] at hdisordered
        exact absurd List.Pairwise.nil hdisordered
    | cons x rest =>
        rw [hrun] at hdisordered
        exact ⟨_, mem_of_getD_eq_cons hrun, hdisordered⟩
  · rintro ⟨run, hrun, hdisordered⟩
    cases hverify : m.verify runs with
    | ok =>
        rw [← Comparator.not_ordered_iff_disordered] at hdisordered
        exact absurd (verify_eq_ok_iff.1 hverify run hrun) hdisordered
    | error fault =>
        obtain ⟨n, index, -, h⟩ := verifyFrom_eq_error_iff.1 hverify
        exact ⟨n, index, h⟩

/-! ### Answers behind a verification -/

section Answers

variable {β : Type v} {answer : Except Fault β}

theorem bind_verify_of_ordered (h : ∀ run ∈ runs, m.cmp.Ordered run) :
    ((m.verify runs).bind fun _ => answer) = answer := by
  rw [verify_eq_ok_iff.2 h]
  rfl

/-- An answer behind a verification reports disorder only if the verification does. -/
theorem bind_verify_eq_error_iff {n index : Nat}
    (hanswer : answer ≠ .error (.disorderedRun n index)) :
    ((m.verify runs).bind fun _ => answer) = .error (.disorderedRun n index) ↔
      FirstDisorder m.cmp runs n index := by
  rw [← verify_eq_error_iff]
  cases m.verify runs with
  | error fault => simp [Except.bind]
  | ok => simpa [Except.bind] using hanswer

theorem bind_verify_eq_ok_iff {value : β} :
    ((m.verify runs).bind fun _ => answer) = .ok value ↔
      (∀ run ∈ runs, m.cmp.Ordered run) ∧ answer = .ok value := by
  rw [← verify_eq_ok_iff]
  cases m.verify runs with
  | error fault => simp [Except.bind]
  | ok => simp [Except.bind]

end Answers
end Verification

section Operations

variable {m : RunMerger α} {runs : List (List α)}

theorem verifiedMerge_eq_bind (capacity : Nat) (track : Bool) :
    m.verifiedMerge runs capacity track =
      (m.verify runs).bind fun _ => m.merge runs capacity track := by
  rw [RunMerger.verifiedMerge]
  cases m.verify runs <;> rfl

theorem verifiedMergeUntilRunEnds_eq_bind (capacity : Nat) :
    m.verifiedMergeUntilRunEnds runs capacity =
      (m.verify runs).bind fun _ => m.mergeUntilRunEnds runs capacity := by
  rw [RunMerger.verifiedMergeUntilRunEnds]
  cases m.verify runs <;> rfl

theorem fst_verifiedMergeOver_eq_bind (track : Bool) (dst : List α) :
    (m.verifiedMergeOver runs track dst).1 =
      (m.verify runs).bind fun _ => (m.mergeOver runs track dst).1 := by
  rw [RunMerger.verifiedMergeOver]
  cases m.verify runs <;> rfl

/-! ### Answers of merges that do not verify -/

theorem merge_eq_map (capacity : Nat) (track : Bool) :
    m.merge runs capacity track = (m.accept runs.length capacity).map fun _ =>
      ⟨(picks m.cmp .atCapacity capacity runs).map Pick.value,
        RunMerger.tallyIf track runs (picks m.cmp .atCapacity capacity runs)⟩ := by
  rw [RunMerger.merge]
  cases m.accept runs.length capacity <;> rfl

theorem mergeUntilRunEnds_eq_map (capacity : Nat) :
    m.mergeUntilRunEnds runs capacity = (m.accept runs.length capacity).map fun _ =>
      ⟨(picks m.cmp .whenRunEnds capacity runs).map Pick.value,
        some (Tally.ofPicks runs.length (picks m.cmp .whenRunEnds capacity runs))⟩ := by
  rw [RunMerger.mergeUntilRunEnds]
  cases m.accept runs.length capacity <;> rfl

theorem fst_mergeOver_eq_map (track : Bool) (dst : List α) :
    (m.mergeOver runs track dst).1 = (m.accept runs.length dst.length).map fun _ =>
      ⟨(picks m.cmp .atCapacity dst.length runs).length,
        RunMerger.tallyIf track runs (picks m.cmp .atCapacity dst.length runs)⟩ := by
  rw [RunMerger.mergeOver]
  cases m.accept runs.length dst.length <;> rfl

theorem map_accept_ne_disorderedRun {β : Type v} (count capacity : Nat) (value : β)
    (n index : Nat) :
    (m.accept count capacity).map (fun _ => value) ≠ .error (.disorderedRun n index) := by
  rw [RunMerger.accept]
  split
  · simp [Except.map]
  · split <;> simp [Except.map]

theorem eq_of_map_accept_eq_ok {β : Type v} {count capacity : Nat} {value result : β}
    (h : (m.accept count capacity).map (fun _ => value) = .ok result) : result = value := by
  cases haccept : m.accept count capacity with
  | error fault => simp [haccept, Except.map] at h
  | ok => simpa [haccept, Except.map, eq_comm] using h

/-- What a merge into a destination has produced stands at the front of it. -/
theorem take_produced_mergeOver {track : Bool} {dst : List α} {filled : Filled}
    (h : (m.mergeOver runs track dst).1 = .ok filled) :
    (m.mergeOver runs track dst).2.take filled.produced =
      (picks m.cmp .atCapacity dst.length runs).map Pick.value := by
  have hlength : ((picks m.cmp .atCapacity dst.length runs).map Pick.value).length ≤
      dst.length := by
    rw [List.length_map, length_picks]
    exact Nat.min_le_left _ _
  rw [RunMerger.mergeOver] at h ⊢
  cases haccept : m.accept runs.length dst.length with
  | error fault => simp [haccept] at h
  | ok =>
      simp only [haccept, Except.ok.injEq] at h ⊢
      rw [← h, overwrite, List.take_of_length_le hlength]
      exact List.take_left' (List.length_map _)

end Operations

/--
**Verified merges report the first run that is out of order, with the length of its longest ordered
front.** They do so if any element of a run precedes one that stands before it, whatever the number
of runs and the capacity, and they leave a destination as it was. Otherwise they answer as the
merges that do not verify, and what they put out is in order.
-/
theorem verified_merges_report_first_disorder
    (m : RunMerger α) [Std.TransCmp m.cmp]
    (runs : List (List α)) :
    ((∃ n index, FirstDisorder m.cmp runs n index) ↔ ∃ run ∈ runs, m.cmp.Disordered run) ∧
    (∀ n index capacity track dst,
      (m.verifiedMerge runs capacity track = .error (.disorderedRun n index) ↔
        FirstDisorder m.cmp runs n index) ∧
      (m.verifiedMergeUntilRunEnds runs capacity = .error (.disorderedRun n index) ↔
        FirstDisorder m.cmp runs n index) ∧
      ((m.verifiedMergeOver runs track dst).1 = .error (.disorderedRun n index) ↔
        FirstDisorder m.cmp runs n index) ∧
      (FirstDisorder m.cmp runs n index → (m.verifiedMergeOver runs track dst).2 = dst)) ∧
    ((∀ run ∈ runs, ¬ m.cmp.Disordered run) → ∀ capacity track dst,
      m.verifiedMerge runs capacity track = m.merge runs capacity track ∧
      m.verifiedMergeUntilRunEnds runs capacity = m.mergeUntilRunEnds runs capacity ∧
      m.verifiedMergeOver runs track dst = m.mergeOver runs track dst) ∧
    (∀ capacity track merged, m.verifiedMerge runs capacity track = .ok merged →
      m.cmp.Ordered merged.output) ∧
    (∀ capacity merged, m.verifiedMergeUntilRunEnds runs capacity = .ok merged →
      m.cmp.Ordered merged.output) ∧
    (∀ track dst filled, (m.verifiedMergeOver runs track dst).1 = .ok filled →
      m.cmp.Ordered ((m.verifiedMergeOver runs track dst).2.take filled.produced)) := by
  refine ⟨exists_firstDisorder_iff, ?_, ?_, ?_, ?_, ?_⟩
  · intro n index capacity track dst
    refine ⟨?_, ?_, ?_, ?_⟩
    · rw [verifiedMerge_eq_bind, bind_verify_eq_error_iff]
      rw [merge_eq_map]
      exact map_accept_ne_disorderedRun _ _ _ n index
    · rw [verifiedMergeUntilRunEnds_eq_bind, bind_verify_eq_error_iff]
      rw [mergeUntilRunEnds_eq_map]
      exact map_accept_ne_disorderedRun _ _ _ n index
    · rw [fst_verifiedMergeOver_eq_bind, bind_verify_eq_error_iff]
      rw [fst_mergeOver_eq_map]
      exact map_accept_ne_disorderedRun _ _ _ n index
    · intro h
      rw [RunMerger.verifiedMergeOver, verify_eq_error_iff.2 h]
  · intro h capacity track dst
    have hordered : ∀ run ∈ runs, m.cmp.Ordered run := fun run hrun =>
      Comparator.not_disordered_iff_ordered.1 (h run hrun)
    refine ⟨?_, ?_, ?_⟩
    · rw [verifiedMerge_eq_bind, bind_verify_of_ordered hordered]
    · rw [verifiedMergeUntilRunEnds_eq_bind, bind_verify_of_ordered hordered]
    · rw [RunMerger.verifiedMergeOver, verify_eq_ok_iff.2 hordered]
  · intro capacity track merged h
    rw [verifiedMerge_eq_bind, bind_verify_eq_ok_iff, merge_eq_map] at h
    rw [eq_of_map_accept_eq_ok h.2]
    exact ordered_picks_of_ordered h.1 .atCapacity capacity
  · intro capacity merged h
    rw [verifiedMergeUntilRunEnds_eq_bind, bind_verify_eq_ok_iff, mergeUntilRunEnds_eq_map] at h
    rw [eq_of_map_accept_eq_ok h.2]
    exact ordered_picks_of_ordered h.1 .whenRunEnds capacity
  · intro track dst filled h
    rw [fst_verifiedMergeOver_eq_bind, bind_verify_eq_ok_iff] at h
    rw [RunMerger.verifiedMergeOver, verify_eq_ok_iff.2 h.1]
    dsimp only
    rw [take_produced_mergeOver h.2]
    exact ordered_picks_of_ordered h.1 .atCapacity dst.length

/-- More runs than the fan-in allows, of which the second is out of order from its third place. -/
def disorderedRuns : List (List Nat) :=
  [[10, 25], [30, 31, 12, 50], [20, 9]]

theorem verified_merges_of_disorderedRuns :
    FirstDisorder Comparator.byTens disorderedRuns 1 2 ∧
    (RunMerger.mk Comparator.byTens .two).merge disorderedRuns 0 true = .error (.runCount 3 2) ∧
    (RunMerger.mk Comparator.byTens .two).verifiedMergeUntilRunEnds disorderedRuns 0 =
      .error (.disorderedRun 1 2) ∧
    (RunMerger.mk Comparator.byTens .two).verifiedMergeOver disorderedRuns true [7, 7] =
      (.error (.disorderedRun 1 2), [7, 7]) ∧
    ∃ merged,
      (RunMerger.mk Comparator.byTens .two).verifiedMerge [[10, 25], [11, 20]] 3 true =
        .ok merged ∧
      merged.output = [10, 11, 25] ∧
      Comparator.byTens.Ordered merged.output := by
  obtain ⟨-, hreport, -⟩ :=
    verified_merges_report_first_disorder (RunMerger.mk Comparator.byTens .two) disorderedRuns
  obtain ⟨-, -, -, hordered, -⟩ :=
    verified_merges_report_first_disorder (RunMerger.mk Comparator.byTens .two)
      [[10, 25], [11, 20]]
  obtain ⟨hmerge, huntil, hover, hdst⟩ := hreport 1 2 0 true [7, 7]
  have hfirst : FirstDisorder Comparator.byTens disorderedRuns 1 2 := hmerge.1 rfl
  have hrun : (RunMerger.mk Comparator.byTens .two).verifiedMerge [[10, 25], [11, 20]] 3 true =
      .ok ⟨[10, 11, 25], some ⟨[2, 1]⟩⟩ := rfl
  exact ⟨hfirst, rfl, huntil.2 hfirst, Prod.ext (hover.2 hfirst) (hdst hfirst), _, hrun, rfl,
    hordered 3 true _ hrun⟩

end KWayMerge
