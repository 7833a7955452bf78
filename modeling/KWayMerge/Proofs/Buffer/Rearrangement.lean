import KWayMerge.Proofs.Buffer.Coarsening
import Mathlib.Data.List.Perm.Subperm

/-!
# Nothing is lost and nothing is made up

A merge puts out elements of its runs, each at most once, under any comparator and whatever the
runs hold. So gathering never brings into the fronts of the segments what was not in the fronts
of the segments before, and the stale elements behind the fronts do not come back. When the fronts
are the whole segments, gathering rearranges the buffer.

**Results.**
* `Gathers.fronts_subperm`: gathering makes nothing up in the fronts of the segments.
* `Gathers.perm`: gathering whole segments rearranges them.
* `buffer_rearranged`: both sorts rearrange, and a selection brings out distinct places.
-/

namespace KWayMerge

universe u

/-! ### Fronts of segments -/

section Fronts

variable {α : Type u} {cmp : Comparator α} {k : Nat}

/-- **A merge puts out elements of its runs, each at most once.** -/
theorem subperm_picks (stop : StopRule) (capacity : Nat) (runs : List (List α)) :
    List.Subperm ((picks cmp stop capacity runs).map Pick.value) runs.flatten := by
  induction capacity generalizing runs with
  | zero => exact List.nil_subperm
  | succ capacity ih =>
      rw [picks_succ]
      cases hfront : front? cmp runs with
      | none => exact List.nil_subperm
      | some pick =>
          obtain ⟨left, rest, right, rfl, hrun⟩ := front?_eq_some hfront
          have hhead : (pick.value :: (left ++ rest :: right).flatten).Perm
              (left ++ (pick.value :: rest) :: right).flatten := by
            simp only [List.flatten_append, List.flatten_cons, List.cons_append]
            exact List.perm_middle.symm
          refine List.Subperm.trans ?_ hhead.subperm
          dsimp only
          rw [hrun, dropHead_append_cons, List.map_cons, List.subperm_cons]
          split
          · exact List.nil_subperm
          · exact ih (left ++ rest :: right)

/-- What counts of the segments: the first `k` elements of each. -/
def fronts (k : Nat) (segments : List (List α)) : List α :=
  (segments.map (List.take k)).flatten

theorem fronts_append (left right : List (List α)) :
    fronts k (left ++ right) = fronts k left ++ fronts k right := by
  rw [fronts, List.map_append, List.flatten_append]
  rfl

theorem fronts_cons (segment : List α) (segments : List (List α)) :
    fronts k (segment :: segments) = segment.take k ++ fronts k segments :=
  rfl

theorem fronts_sublist (k : Nat) (segments : List (List α)) :
    (fronts k segments).Sublist segments.flatten := by
  induction segments with
  | nil => exact List.Sublist.slnil
  | cons segment segments ih =>
      rw [fronts_cons, List.flatten_cons]
      exact (List.take_sublist k segment).append ih

theorem fronts_of_length_le {segments : List (List α)} (h : segments.flatten.length ≤ k) :
    fronts k segments = segments.flatten := by
  induction segments with
  | nil => rfl
  | cons segment segments ih =>
      rw [List.flatten_cons, List.length_append] at h
      rw [fronts_cons, List.flatten_cons, List.take_of_length_le (by omega), ih (by omega)]

/-- The front of a gathered segment consists of elements from the fronts of its parts. -/
theorem take_gather_subperm (group : List (List α)) :
    List.Subperm ((gather cmp k group).take k) (fronts k group) := by
  rw [take_gather, ← picks_map_take]
  exact subperm_picks .atCapacity k (group.map (List.take k))

theorem GatherStep.fronts_subperm {segments others : List (List α)}
    (h : GatherStep cmp k segments others) :
    List.Subperm (fronts k others) (fronts k segments) := by
  cases h with
  | mk left group right =>
      rw [fronts_append, fronts_append, fronts_append, fronts_cons, List.append_assoc]
      exact List.Subperm.append (List.Subperm.refl _)
        (List.Subperm.append (take_gather_subperm group) (List.Subperm.refl _))

/-- **Gathering makes nothing up in the fronts of the segments.** -/
theorem Gathers.fronts_subperm {segments others : List (List α)}
    (h : Gathers cmp k segments others) :
    List.Subperm (fronts k others) (fronts k segments) := by
  induction h with
  | refl => exact List.Subperm.refl _
  | tail _ hstep ih => exact hstep.fronts_subperm.trans ih

/-- **Gathering segments that count as a whole rearranges them.** -/
theorem Gathers.perm {segments others : List (List α)} (h : Gathers cmp k segments others)
    (hk : segments.flatten.length ≤ k) : others.flatten.Perm segments.flatten := by
  have hfronts := h.fronts_subperm
  have hlength := h.length_flatten
  rw [fronts_of_length_le hk, fronts_of_length_le (hlength.trans_le hk)] at hfronts
  exact hfronts.perm_of_length_le hlength.ge

theorem perm_gather {group : List (List α)} (hk : group.flatten.length ≤ k) :
    (gather cmp k group).Perm group.flatten := by
  have hstep : GatherStep cmp k ([] ++ group ++ []) ([] ++ [gather cmp k group]) := .mk [] group []
  have hperm := Gathers.perm (Relation.ReflTransGen.single hstep) (by simpa using hk)
  simpa using hperm

end Fronts

/-! ### Places -/

section Places

variable {α : Type u}

/-- What takes each element at most once takes the elements at distinct places. -/
theorem exists_places_of_subperm {winners xs : List α} (h : List.Subperm winners xs) :
    ∃ places : List Nat,
      places.Nodup ∧ (∀ place ∈ places, place < xs.length) ∧
      winners.map some = places.map fun place => xs[place]? := by
  obtain ⟨chosen, hperm, hsub⟩ := h
  rw [← List.zipIdx_map_fst 0 xs] at hsub
  obtain ⟨numbered, hnumbered, rfl⟩ := List.sublist_map_iff.1 hsub
  have hcomp : Relation.Comp (fun a b => a = List.map Prod.fst b) List.Perm winners numbered := by
    rw [List.eq_map_comp_perm]
    exact hperm.symm
  obtain ⟨pairs, rfl, hpairs⟩ := hcomp
  have hmem : ∀ pair ∈ pairs, xs[pair.2]? = some pair.1 := by
    intro pair hpair
    exact List.mem_zipIdx_iff_getElem?.1 (hnumbered.subset (hpairs.mem_iff.1 hpair))
  refine ⟨pairs.map Prod.snd, ?_, ?_, ?_⟩
  · have hall : (xs.zipIdx.map Prod.snd).Nodup := by
      rw [List.zipIdx_map_snd]
      exact List.nodup_range'
    rw [(hpairs.map Prod.snd).nodup_iff]
    exact hall.sublist (hnumbered.map Prod.snd)
  · rintro place hplace
    obtain ⟨pair, hpair, rfl⟩ := List.mem_map.1 hplace
    obtain ⟨hlt, -⟩ := List.getElem?_eq_some_iff.1 (hmem pair hpair)
    exact hlt
  · rw [List.map_map, List.map_map]
    refine List.map_congr_left ?_
    intro pair hpair
    exact (hmem pair hpair).symm

end Places

/-! ### Buffers -/

section Buffers

variable {α : Type} (m : RunMerger α) {blockLen totalLen : Nat} {buffer : List α}

/-- **The front that a selection leaves holds elements of what it worked on.** -/
theorem run_selectInPlace_subperm
    (hblock : 0 < blockLen)
    (htotal : totalLen ≤ buffer.length)
    (k : Nat) :
    ∃ after events,
      after.length = totalLen ∧
      List.Subperm (after.take (min k totalLen)) (buffer.take totalLen) ∧
      (m.selectInPlace blockLen totalLen k).run buffer =
        ⟨.ok (min k totalLen), after ++ buffer.drop totalLen, events⟩ := by
  have hlength : (buffer.take totalLen).length = totalLen := List.length_take_of_le htotal
  by_cases hk : min k totalLen = 0
  · refine ⟨buffer.take totalLen, (Plan.ofBlocks totalLen blockLen 0 m.fanIn).clampEvents k,
      hlength, ?_, ?_⟩
    · rw [hk, List.take_zero]
      exact List.nil_subperm
    · rw [List.take_append_drop, hk]
      exact run_selectInPlace_of_eq_zero m hblock htotal hk
  · obtain ⟨front, blocks, hgathers, -, hrun⟩ :=
      run_selectInPlace m hblock htotal (Nat.pos_of_ne_zero hk) rfl
    have hall : Gathers m.cmp (min k totalLen) (chunks blockLen (buffer.take totalLen))
        [foldSegments m.cmp (min k totalLen) front blocks] :=
      hgathers.trans (gathers_foldSegments m.cmp (min k totalLen) front blocks)
    refine ⟨_, _, ?_, ?_, hrun⟩
    · have hkeep := hall.length_flatten
      rw [List.flatten_singleton, flatten_chunks hblock, hlength] at hkeep
      exact hkeep
    · have hfronts := hall.fronts_subperm.trans (fronts_sublist _ _).subperm
      rw [flatten_chunks hblock, fronts, List.map_singleton, List.flatten_singleton] at hfronts
      exact hfronts

theorem run_sortFromBlocks_perm
    (hblock : 0 < blockLen)
    (htotal : totalLen ≤ buffer.length) :
    ∃ after events,
      after.Perm (buffer.take totalLen) ∧
      (m.sortFromBlocks blockLen totalLen).run buffer =
        ⟨.ok (), after ++ buffer.drop totalLen, events⟩ := by
  obtain ⟨after, events, hlength, hsub, hrun⟩ :=
    run_selectInPlace_subperm m hblock htotal totalLen
  rw [Nat.min_self, List.take_of_length_le (by omega)] at hsub
  refine ⟨after, events ++ [], hsub.perm_of_length_le ?_, ?_⟩
  · rw [hlength, List.length_take]
    exact Nat.min_le_left _ _
  · rw [RunMerger.sortFromBlocks]
    exact BufferM.run_bind_of_run hrun (BufferM.run_pure _ _)

/-- Each chunk after a round is a rearrangement of the chunk before it. -/
theorem perm_flatten_mergedChunks (hblock : 0 < blockLen) (buffer : List α) :
    (mergedChunks m buffer.length blockLen buffer).flatten.Perm buffer := by
  have hparts : ((chunks (m.groupLen blockLen) buffer).flatMap fun group =>
      gather m.cmp buffer.length (chunks blockLen group)).Perm
        ((chunks (m.groupLen blockLen) buffer).flatMap id) := by
    refine List.Perm.flatMap_left _ ?_
    intro group hgroup
    have hflatten : (chunks blockLen group).flatten = group := flatten_chunks hblock group
    have hle : (chunks blockLen group).flatten.length ≤ buffer.length := by
      rw [hflatten]
      exact length_le_of_mem_chunks (groupLen_pos m hblock) hgroup
    have hperm : (gather m.cmp buffer.length (chunks blockLen group)).Perm
        (chunks blockLen group).flatten := perm_gather hle
    rwa [hflatten] at hperm
  rw [List.flatMap_def, List.flatMap_def, List.map_id,
    flatten_chunks (groupLen_pos m hblock)] at hparts
  exact hparts

theorem run_coarsen_perm (hblock : 0 < blockLen) (buffer : List α) :
    ∃ after events,
      after.Perm buffer ∧
      (m.coarsen blockLen).run buffer = ⟨.ok (m.groupLen blockLen), after, events⟩ := by
  by_cases hlong : blockLen < buffer.length
  · exact ⟨_, _, perm_flatten_mergedChunks m hblock buffer,
      run_coarsen m hblock hlong (Nat.min_le_right _ _)⟩
  · exact ⟨buffer, [], List.Perm.refl _, run_coarsen_of_length_le m hblock (not_lt.1 hlong)⟩

theorem run_sortByCoarsening_perm (hblock : 0 < blockLen) (buffer : List α) :
    ∃ after events,
      after.Perm buffer ∧
      (m.sortByCoarsening blockLen).run buffer = ⟨.ok (), after, events⟩ := by
  have hround : ∀ len middle, 0 < len → len < middle.length → middle.Perm buffer →
      (mergedChunks m middle.length len middle).flatten.Perm buffer := by
    intro len middle hlen _ hperm
    exact (perm_flatten_mergedChunks m hlen middle).trans hperm
  obtain ⟨after, len, events, hperm, -, hrun⟩ :=
    run_coarsenUntil_of_round m hround hblock (List.Perm.refl buffer)
  refine ⟨after, events, hperm, ?_⟩
  rw [RunMerger.sortByCoarsening, if_neg (by omega),
    BufferM.run_bind_of_silent (BufferM.run_contents _), hrun]

end Buffers

/--
**Sorts and rounds rearrange the elements that they work on, and the winners of a selection are the
elements at distinct places of what it works on.** This asks nothing of the comparator or of what
the blocks hold.
-/
theorem buffer_rearranged
    {α : Type}
    (m : RunMerger α)
    {blockLen : Nat}
    (hblock : 1 ≤ blockLen)
    (buffer : List α) :
    (∀ totalLen, totalLen ≤ buffer.length → ∃ after,
      ((m.sortFromBlocks blockLen totalLen).run buffer).result = .ok () ∧
      ((m.sortFromBlocks blockLen totalLen).run buffer).buffer = after ++ buffer.drop totalLen ∧
      after.Perm (buffer.take totalLen)) ∧
    ((m.coarsen blockLen).run buffer).result = .ok (m.groupLen blockLen) ∧
    ((m.coarsen blockLen).run buffer).buffer.Perm buffer ∧
    ((m.sortByCoarsening blockLen).run buffer).result = .ok () ∧
    ((m.sortByCoarsening blockLen).run buffer).buffer.Perm buffer ∧
    (∀ totalLen k, totalLen ≤ buffer.length → ∃ (winners : List α) (places : List Nat),
      ((m.select blockLen totalLen k).run buffer).result = .ok winners ∧
      places.length = min k totalLen ∧
      places.Nodup ∧
      (∀ place ∈ places, place < totalLen) ∧
      winners.map some = places.map fun place => buffer[place]?) := by
  obtain ⟨coarsened, events, hcoarsened, hcoarsen⟩ := run_coarsen_perm m hblock buffer
  obtain ⟨sorted, events', hsorted, hsort⟩ := run_sortByCoarsening_perm m hblock buffer
  rw [hcoarsen, hsort]
  refine ⟨?_, rfl, hcoarsened, rfl, hsorted, ?_⟩
  · intro totalLen htotal
    obtain ⟨after, events, hperm, hrun⟩ := run_sortFromBlocks_perm m hblock htotal
    rw [hrun]
    exact ⟨after, rfl, rfl, hperm⟩
  · intro totalLen k htotal
    obtain ⟨after, events, hlength, hsub, hrun⟩ := run_selectInPlace_subperm m hblock htotal k
    obtain ⟨places, hnodup, hlt, hvalues⟩ := exists_places_of_subperm hsub
    have hin : ∀ place ∈ places, place < totalLen := by
      intro place hplace
      have hplace' := hlt place hplace
      rw [List.length_take] at hplace'
      omega
    refine ⟨after.take (min k totalLen), places, ?_, ?_, hnodup, hin, ?_⟩
    · rw [run_select m hrun (by omega)]
    · have hcount := congrArg List.length hvalues
      rw [List.length_map, List.length_map, List.length_take, hlength] at hcount
      omega
    · rw [hvalues]
      refine List.map_congr_left ?_
      intro place hplace
      exact List.getElem?_take_of_lt (hin place hplace)

theorem buffer_rearranged_without_order :
    ((RunMerger.mk Comparator.alwaysBefore .two).coarsen 2 |>.run [5, 5, 1, 4, 2]).buffer.Perm
      [5, 5, 1, 4, 2] ∧
    ((RunMerger.mk Comparator.alwaysBefore .two).sortByCoarsening 2 |>.run
      [5, 5, 1, 4, 2]).buffer.Perm [5, 5, 1, 4, 2] ∧
    ∃ (winners : List Nat) (places : List Nat),
      ((RunMerger.mk Comparator.alwaysBefore .two).select 2 5 3 |>.run
        [5, 5, 1, 4, 2]).result = .ok winners ∧
      winners = [2, 1, 4] ∧
      places.length = 3 ∧
      places.Nodup ∧
      winners.map some = places.map fun place => [5, 5, 1, 4, 2][place]? := by
  obtain ⟨-, -, hcoarsen, -, hsort, hselect⟩ :=
    buffer_rearranged (RunMerger.mk Comparator.alwaysBefore .two) (show 1 ≤ 2 by decide)
      [5, 5, 1, 4, 2]
  obtain ⟨winners, places, hresult, hlength, hnodup, -, hvalues⟩ := hselect 5 3 (by decide)
  have hrun : ((RunMerger.mk Comparator.alwaysBefore .two).select 2 5 3 |>.run
      [5, 5, 1, 4, 2]).result.toOption = some [2, 1, 4] := by
    decide +kernel
  have hwinners : winners = [2, 1, 4] := by
    rw [hresult] at hrun
    exact Option.some.inj hrun
  exact ⟨hcoarsen, hsort, winners, places, hresult, hwinners, hlength, hnodup, hvalues⟩

end KWayMerge
