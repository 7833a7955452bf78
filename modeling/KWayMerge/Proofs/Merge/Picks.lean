import KWayMerge.Merge.Basic
import KWayMerge.Proofs.Merge.Heads

/-!
# The sequence of picks

What is said here of the elements that a merge takes holds under any comparator and for runs in
any order: how many there are, that a smaller capacity takes a prefix of them, that only the
front of each run matters, and that those from one run are its front.

**Results.**
* `length_picks`: a merge stops early only when all runs are empty.
* `picks_eq_of_map_take_eq`: runs that agree up to the capacity are merged alike.
* `values_from_run`: the picks from a run, in order, are a prefix of it.
-/

namespace KWayMerge

universe u

/-- Under this comparator, which obeys no law, every element precedes every other. -/
def Comparator.alwaysBefore : Comparator Nat :=
  fun _ _ => .lt

variable {α : Type u} {cmp : Comparator α}

/-! ### One step -/

theorem getD_dropHead (runs : List (List α)) (i j : Nat) :
    (dropHead runs i).getD j [] =
      if i = j then (runs.getD j []).tail else runs.getD j [] := by
  simp only [dropHead, List.getD_eq_getElem?_getD, List.getElem?_modify]
  cases runs[j]? with
  | none => split <;> rfl
  | some run => split <;> rfl

theorem length_dropHead (runs : List (List α)) (i : Nat) :
    (dropHead runs i).length = runs.length := by
  simp [dropHead]

theorem getD_of_front? {runs : List (List α)} {pick : Pick α}
    (h : front? cmp runs = some pick) :
    ∃ rest, runs.getD pick.run [] = pick.value :: rest := by
  obtain ⟨left, rest, right, rfl, hrun⟩ := front?_eq_some h
  refine ⟨rest, ?_⟩
  rw [hrun]
  simp

theorem run_lt_of_front? {runs : List (List α)} {pick : Pick α}
    (h : front? cmp runs = some pick) : pick.run < runs.length := by
  obtain ⟨left, rest, right, rfl, hrun⟩ := front?_eq_some h
  rw [hrun]
  simp

theorem length_flatten_dropHead {runs : List (List α)} {pick : Pick α}
    (h : front? cmp runs = some pick) :
    runs.flatten.length = (dropHead runs pick.run).flatten.length + 1 := by
  obtain ⟨left, rest, right, rfl, hrun⟩ := front?_eq_some h
  rw [hrun, dropHead_append_cons]
  simp only [List.flatten_append, List.flatten_cons, List.length_append, List.length_cons]
  omega

theorem picks_atCapacity_succ (capacity : Nat) (runs : List (List α)) :
    picks cmp .atCapacity (capacity + 1) runs =
      match front? cmp runs with
      | none => []
      | some pick => pick :: picks cmp .atCapacity capacity (dropHead runs pick.run) := by
  rw [picks_succ]
  cases front? cmp runs with
  | none => rfl
  | some pick => simp [StopRule.suspends]

/-! ### How many picks there are -/

/-- **A merge takes as many elements as it may, or all there are.** -/
theorem length_picks (capacity : Nat) (runs : List (List α)) :
    (picks cmp .atCapacity capacity runs).length = min capacity runs.flatten.length := by
  induction capacity generalizing runs with
  | zero => simp
  | succ capacity ih =>
      rw [picks_atCapacity_succ]
      cases hfront : front? cmp runs with
      | none =>
          have hempty := front?_eq_none_iff.1 hfront
          simp [hempty]
      | some pick =>
          have hlength := length_flatten_dropHead hfront
          simp only [List.length_cons, ih]
          omega

/-- A smaller capacity takes the first of the same picks. -/
theorem take_picks (n capacity : Nat) (runs : List (List α)) :
    (picks cmp .atCapacity capacity runs).take n = picks cmp .atCapacity (min n capacity) runs := by
  induction capacity generalizing n runs with
  | zero => simp
  | succ capacity ih =>
      cases n with
      | zero => simp
      | succ n =>
          rw [Nat.add_min_add_right, picks_atCapacity_succ, picks_atCapacity_succ]
          cases front? cmp runs with
          | none => rfl
          | some pick => simp [ih]

/-! ### Only the front of each run matters -/

theorem scanHeads_map_take (n i : Nat) (best : Option (Pick α)) (runs : List (List α)) :
    scanHeads cmp i best (runs.map (List.take (n + 1))) = scanHeads cmp i best runs := by
  induction runs generalizing i best with
  | nil => rfl
  | cons run runs ih =>
      rw [List.map_cons, scanHeads, ih, scanHeads]
      cases run with
      | nil => rfl
      | cons head tail => rfl

theorem front?_map_take (n : Nat) (runs : List (List α)) :
    front? cmp (runs.map (List.take (n + 1))) = front? cmp runs :=
  scanHeads_map_take n 0 none runs

theorem map_take_dropHead (n i : Nat) (runs : List (List α)) :
    (dropHead (runs.map (List.take (n + 1))) i).map (List.take n) =
      (dropHead runs i).map (List.take n) := by
  induction runs generalizing i with
  | nil => rfl
  | cons run runs ih =>
      cases i with
      | zero => cases run <;> simp [dropHead, Function.comp_def, List.take_take]
      | succ i =>
          simp only [dropHead] at ih
          simp [dropHead, ih, List.take_take]

/-- **Runs that agree up to the capacity are merged alike.** -/
theorem picks_eq_of_map_take_eq {capacity : Nat} {runs others : List (List α)}
    (h : runs.map (List.take capacity) = others.map (List.take capacity)) :
    picks cmp .atCapacity capacity runs = picks cmp .atCapacity capacity others := by
  induction capacity generalizing runs others with
  | zero => rfl
  | succ capacity ih =>
      have hfront : front? cmp runs = front? cmp others := by
        rw [← front?_map_take capacity runs, h, front?_map_take]
      rw [picks_atCapacity_succ, picks_atCapacity_succ, hfront]
      cases front? cmp others with
      | none => rfl
      | some pick =>
          have hrest : (dropHead runs pick.run).map (List.take capacity) =
              (dropHead others pick.run).map (List.take capacity) := by
            rw [← map_take_dropHead, h, map_take_dropHead]
          simp only [ih hrest]

theorem map_value_picks_singleton (capacity : Nat) (run : List α) :
    (picks cmp .atCapacity capacity [run]).map Pick.value = run.take capacity := by
  induction capacity generalizing run with
  | zero => simp
  | succ capacity ih =>
      rw [picks_atCapacity_succ]
      cases run with
      | nil => rfl
      | cons x rest =>
          have hrest := ih rest
          exact congrArg (List.cons x) hrest

theorem picks_map_take (capacity : Nat) (runs : List (List α)) :
    picks cmp .atCapacity capacity (runs.map (List.take capacity)) =
      picks cmp .atCapacity capacity runs := by
  refine picks_eq_of_map_take_eq ?_
  simp [Function.comp_def, List.take_take]

/-! ### The picks from one run -/

/-- The elements picked from run `i`, in order. -/
def valuesFrom (i : Nat) (taken : List (Pick α)) : List α :=
  (taken.filter fun pick => pick.run == i).map Pick.value

theorem valuesFrom_cons (i : Nat) (pick : Pick α) (taken : List (Pick α)) :
    valuesFrom i (pick :: taken) =
      if pick.run = i then pick.value :: valuesFrom i taken else valuesFrom i taken := by
  by_cases h : pick.run = i
  · simp [valuesFrom, h]
  · simp [valuesFrom, h]

theorem length_valuesFrom (i : Nat) (taken : List (Pick α)) :
    (valuesFrom i taken).length = taken.countP fun pick => pick.run == i := by
  simp [valuesFrom, List.countP_eq_length_filter]

/-- The picks from a run form a prefix of it, whenever the merge stops. -/
theorem valuesFrom_isPrefix (stop : StopRule) (capacity : Nat) (runs : List (List α)) (i : Nat) :
    valuesFrom i (picks cmp stop capacity runs) <+: runs.getD i [] := by
  induction capacity generalizing runs with
  | zero => simp [valuesFrom]
  | succ capacity ih =>
      rw [picks_succ]
      cases hfront : front? cmp runs with
      | none => simp [valuesFrom]
      | some pick =>
          obtain ⟨rest, hrun⟩ := getD_of_front? hfront
          dsimp only
          rw [valuesFrom_cons]
          have htail : valuesFrom i
              (if stop.suspends (dropHead runs pick.run) pick.run then []
                else picks cmp stop capacity (dropHead runs pick.run)) <+:
              (dropHead runs pick.run).getD i [] := by
            split
            · simp [valuesFrom]
            · exact ih _
          rw [getD_dropHead] at htail
          by_cases hi : pick.run = i
          · subst hi
            rw [if_pos rfl, hrun] at htail ⊢
            exact List.prefix_cons_inj _ |>.2 htail
          · rw [if_neg hi] at htail ⊢
            exact htail

/-- **The picks from a run are as many of its first elements as are counted for it.** -/
theorem values_from_run (stop : StopRule) (capacity : Nat) (runs : List (List α)) (i : Nat) :
    valuesFrom i (picks cmp stop capacity runs) =
      (runs.getD i []).take
        ((picks cmp stop capacity runs).countP fun pick => pick.run == i) := by
  rw [← length_valuesFrom]
  exact List.prefix_iff_eq_take.1 (valuesFrom_isPrefix stop capacity runs i)

theorem run_lt_of_mem_picks {stop : StopRule} {capacity : Nat} {runs : List (List α)}
    {pick : Pick α} (h : pick ∈ picks cmp stop capacity runs) : pick.run < runs.length := by
  induction capacity generalizing runs with
  | zero => simp at h
  | succ capacity ih =>
      rw [picks_succ] at h
      cases hfront : front? cmp runs with
      | none => simp [hfront] at h
      | some first =>
          rw [hfront] at h
          rcases List.mem_cons.1 h with rfl | h
          · exact run_lt_of_front? hfront
          · split at h
            · simp at h
            · simpa [length_dropHead] using ih h

/-! ### The tally of picks -/

theorem slot_ofPicks_picks (stop : StopRule) (capacity : Nat) (runs : List (List α)) (i : Nat) :
    (Tally.ofPicks runs.length (picks cmp stop capacity runs)).slot i =
      (picks cmp stop capacity runs).countP fun pick => pick.run == i := by
  rw [Tally.slot_ofPicks]
  split
  · rfl
  · symm
    rw [List.countP_eq_zero]
    intro pick hpick
    have := run_lt_of_mem_picks hpick
    simp
    omega

/-- What a tally counts of a run is what was picked from it. -/
theorem take_slot_ofPicks (stop : StopRule) (capacity : Nat) (runs : List (List α)) (i : Nat) :
    (runs.getD i []).take ((Tally.ofPicks runs.length (picks cmp stop capacity runs)).slot i) =
      valuesFrom i (picks cmp stop capacity runs) := by
  rw [slot_ofPicks_picks, values_from_run]

/-! ### Merges that are accepted -/

theorem accept_eq_ok {m : RunMerger α} {runs capacity : Nat} (htwo : 2 ≤ runs)
    (hfan : runs ≤ m.fanIn.count) (hcapacity : 0 < capacity) :
    m.accept runs capacity = .ok () := by
  rw [RunMerger.accept, if_neg (by omega), if_neg (by omega)]

/-- What a merge of an accepted number of runs to a positive capacity gives. -/
theorem merge_eq_ok {m : RunMerger α} {runs : List (List α)} {capacity : Nat}
    (htwo : 2 ≤ runs.length) (hfan : runs.length ≤ m.fanIn.count) (hcapacity : 0 < capacity)
    (track : Bool) :
    m.merge runs capacity track =
      .ok ⟨(picks m.cmp .atCapacity capacity runs).map Pick.value,
        RunMerger.tallyIf track runs (picks m.cmp .atCapacity capacity runs)⟩ := by
  rw [RunMerger.merge, accept_eq_ok htwo hfan hcapacity]

theorem mergeUntilRunEnds_eq_ok {m : RunMerger α} {runs : List (List α)} {capacity : Nat}
    (htwo : 2 ≤ runs.length) (hfan : runs.length ≤ m.fanIn.count) (hcapacity : 0 < capacity) :
    m.mergeUntilRunEnds runs capacity =
      .ok ⟨(picks m.cmp .whenRunEnds capacity runs).map Pick.value,
        some (Tally.ofPicks runs.length (picks m.cmp .whenRunEnds capacity runs))⟩ := by
  rw [RunMerger.mergeUntilRunEnds, accept_eq_ok htwo hfan hcapacity]

end KWayMerge
