import KWayMerge.Proofs.Merge.Picks
import Mathlib.Data.List.GetD

/-!
# Merges that go on from where one stopped

After some picks have left, what remains of each run is a tail of it, and a merge of these tails
goes on with the very picks that an uninterrupted merge takes next. This holds under any
comparator, since which head leaves depends on nothing but the heads that are there.

A merge that is suspended once a run has been emptied takes the first picks of a merge that is
not. It need not even see the runs to their ends: a front of each is enough, as long as it holds
an element of each run that has one.

**Results.**
* `picks_add`: the picks to a capacity go on with those from what remains.
* `picks_whenRunEnds`: a suspended merge of fronts takes the first picks from the whole runs.
-/

namespace KWayMerge

universe u

variable {α : Type u} {cmp : Comparator α}

/-! ### What remains of the runs -/

/-- The runs after these picks have left. -/
def runsAfter (runs : List (List α)) (taken : List (Pick α)) : List (List α) :=
  runs.mapIdx fun i run => run.drop (taken.countP fun pick => pick.run == i)

@[simp] theorem length_runsAfter (runs : List (List α)) (taken : List (Pick α)) :
    (runsAfter runs taken).length = runs.length :=
  List.length_mapIdx

@[simp] theorem runsAfter_nil (runs : List (List α)) : runsAfter runs [] = runs := by
  simp [runsAfter, List.mapIdx_eq_zipIdx_map, List.zipIdx_map_fst]

theorem getD_runsAfter (runs : List (List α)) (taken : List (Pick α)) (i : Nat) :
    (runsAfter runs taken).getD i [] =
      (runs.getD i []).drop (taken.countP fun pick => pick.run == i) := by
  simp only [runsAfter, List.getD_eq_getElem?_getD, List.getElem?_mapIdx]
  cases runs[i]? with
  | none => simp
  | some run => rfl

theorem mem_of_getD_eq_cons {runs : List (List α)} {i : Nat} {x : α} {rest : List α}
    (h : runs.getD i [] = x :: rest) : x :: rest ∈ runs := by
  by_cases hi : i < runs.length
  · rw [List.getD_eq_getElem _ _ hi] at h
    exact h ▸ List.getElem_mem hi
  · rw [List.getD_eq_default _ _ (not_lt.1 hi)] at h
    exact absurd h.symm (List.cons_ne_nil _ _)

/-- Runs of which there are equally many are equal if each is. -/
theorem eq_of_getD {runs others : List (List α)} (hlength : runs.length = others.length)
    (h : ∀ i, runs.getD i [] = others.getD i []) : runs = others := by
  refine List.ext_getElem hlength ?_
  intro i hi hi'
  have hget := h i
  rwa [List.getD_eq_getElem _ _ hi, List.getD_eq_getElem _ _ hi'] at hget

theorem runsAfter_cons (runs : List (List α)) (pick : Pick α) (taken : List (Pick α)) :
    runsAfter runs (pick :: taken) = runsAfter (dropHead runs pick.run) taken := by
  refine eq_of_getD (by simp [length_dropHead]) ?_
  intro i
  rw [getD_runsAfter, getD_runsAfter, getD_dropHead, List.countP_cons]
  by_cases hi : pick.run = i
  · simp [hi, List.drop_tail]
  · simp [hi]

theorem runsAfter_append (runs : List (List α)) (taken more : List (Pick α)) :
    runsAfter runs (taken ++ more) = runsAfter (runsAfter runs taken) more := by
  refine eq_of_getD (by simp) ?_
  intro i
  simp only [getD_runsAfter, List.countP_append, List.drop_drop]

/-! ### Merges without a suspension -/

theorem picks_of_front?_eq_none {runs : List (List α)} (h : front? cmp runs = none)
    (stop : StopRule) (capacity : Nat) : picks cmp stop capacity runs = [] := by
  cases capacity with
  | zero => rfl
  | succ capacity => rw [picks_succ, h]

/-- **The picks to a capacity go on with those from what remains.** -/
theorem picks_add (n capacity : Nat) (runs : List (List α)) :
    picks cmp .atCapacity (n + capacity) runs =
      picks cmp .atCapacity n runs ++
        picks cmp .atCapacity capacity (runsAfter runs (picks cmp .atCapacity n runs)) := by
  induction n generalizing runs with
  | zero => simp
  | succ n ih =>
      rw [Nat.succ_add, picks_atCapacity_succ, picks_atCapacity_succ]
      cases hfront : front? cmp runs with
      | none => simp [picks_of_front?_eq_none hfront]
      | some pick =>
          dsimp only
          rw [runsAfter_cons, ih, List.cons_append]

/-- A merge to the number of elements that a merge puts out takes the same elements. -/
theorem picks_length_picks (capacity : Nat) (runs : List (List α)) :
    picks cmp .atCapacity (picks cmp .atCapacity capacity runs).length runs =
      picks cmp .atCapacity capacity runs := by
  have hle : (picks cmp .atCapacity capacity runs).length ≤ capacity := by
    rw [length_picks]
    exact Nat.min_le_left _ _
  calc picks cmp .atCapacity (picks cmp .atCapacity capacity runs).length runs
      = (picks cmp .atCapacity capacity runs).take
          (picks cmp .atCapacity capacity runs).length := by
        rw [take_picks, Nat.min_eq_left hle]
    _ = picks cmp .atCapacity capacity runs := List.take_length

/-- Any capacity is as good as one that holds all elements, cut off. -/
theorem picks_eq_take (capacity : Nat) (runs : List (List α)) :
    picks cmp .atCapacity capacity runs =
      (picks cmp .atCapacity runs.flatten.length runs).take capacity := by
  have hlength : (picks cmp .atCapacity capacity runs).length =
      min capacity runs.flatten.length := length_picks capacity runs
  rw [take_picks, ← hlength, picks_length_picks]

/-- As much remains of the runs as has not been taken. -/
theorem length_flatten_runsAfter (n : Nat) (runs : List (List α)) :
    (runsAfter runs (picks cmp .atCapacity n runs)).flatten.length = runs.flatten.length - n := by
  generalize hrest : runsAfter runs (picks cmp .atCapacity n runs) = rest
  have hadd : picks cmp .atCapacity (n + (runs.flatten.length + rest.flatten.length)) runs =
      picks cmp .atCapacity n runs ++ _ := picks_add n _ runs
  have hlength := congrArg List.length hadd
  rw [hrest, List.length_append, length_picks, length_picks n, length_picks] at hlength
  omega

/-- Once nothing remains, everything has been taken. -/
theorem length_picks_of_runsAfter_eq_nil {n : Nat} {runs : List (List α)}
    (h : (runsAfter runs (picks cmp .atCapacity n runs)).flatten = []) :
    (picks cmp .atCapacity n runs).length = runs.flatten.length := by
  have hrest : (runsAfter runs (picks cmp .atCapacity n runs)).flatten.length = _ :=
    length_flatten_runsAfter n runs
  rw [h, List.length_nil] at hrest
  rw [length_picks]
  omega

/-- A merge to a capacity that holds all elements takes all of each run. -/
theorem valuesFrom_of_length_le {capacity : Nat} {runs : List (List α)}
    (h : runs.flatten.length ≤ capacity) (i : Nat) :
    valuesFrom i (picks cmp .atCapacity capacity runs) = runs.getD i [] := by
  have hrest : (runsAfter runs (picks cmp .atCapacity capacity runs)).flatten = [] := by
    rw [← List.length_eq_zero_iff, length_flatten_runsAfter]
    omega
  have hrun : (runsAfter runs (picks cmp .atCapacity capacity runs)).getD i [] = [] := by
    by_contra hne
    obtain ⟨x, rest, hcons⟩ := List.exists_cons_of_ne_nil hne
    have hmem := List.mem_flatten_of_mem (mem_of_getD_eq_cons hcons) List.mem_cons_self
    rw [hrest] at hmem
    exact List.not_mem_nil hmem
  rw [getD_runsAfter, List.drop_eq_nil_iff] at hrun
  rw [values_from_run, List.take_of_length_le hrun]

/-! ### Merges with a suspension -/

/-- The first runs are fronts of the others, and one is empty only if the other is. -/
structure FrontsOf (visible whole : List (List α)) : Prop where
  length_eq : visible.length = whole.length
  isPrefix : ∀ i, visible.getD i [] <+: whole.getD i []
  eq_nil : ∀ i, visible.getD i [] = [] → whole.getD i [] = []

theorem scanHeads_eq_of_map_head? {runs others : List (List α)}
    (h : runs.map List.head? = others.map List.head?) (i : Nat) (best : Option (Pick α)) :
    scanHeads cmp i best runs = scanHeads cmp i best others := by
  induction runs generalizing others i best with
  | nil =>
      cases others with
      | nil => rfl
      | cons other others => simp at h
  | cons run runs ih =>
      cases others with
      | nil => simp at h
      | cons other others =>
          rw [List.map_cons, List.map_cons, List.cons.injEq] at h
          obtain ⟨hhead, hrest⟩ := h
          rw [scanHeads, scanHeads, ih hrest]
          cases run with
          | nil =>
              cases other with
              | nil => rfl
              | cons y tail => simp at hhead
          | cons x rest =>
              cases other with
              | nil => simp at hhead
              | cons y tail =>
                  rw [List.head?_cons, List.head?_cons, Option.some.injEq] at hhead
                  rw [hhead]
                  rfl

namespace FrontsOf

variable {visible whole : List (List α)}

theorem refl (runs : List (List α)) : FrontsOf runs runs :=
  ⟨rfl, fun _ => List.prefix_refl _, fun _ h => h⟩

theorem map_head?_eq (h : FrontsOf visible whole) :
    visible.map List.head? = whole.map List.head? := by
  refine List.ext_getElem (by simp [h.length_eq]) ?_
  intro i hi hi'
  rw [List.length_map] at hi hi'
  have hprefix := h.isPrefix i
  have hnil := h.eq_nil i
  rw [List.getD_eq_getElem _ _ hi, List.getD_eq_getElem _ _ hi'] at hprefix hnil
  rw [List.getElem_map, List.getElem_map]
  cases hrun : visible[i] with
  | nil => rw [hnil hrun]
  | cons x rest =>
      rw [hrun] at hprefix
      obtain ⟨more, hmore⟩ := hprefix
      rw [← hmore]
      rfl

/-- Fronts with elements have the same next head as the whole runs. -/
theorem front?_eq (h : FrontsOf visible whole) : front? cmp visible = front? cmp whole :=
  scanHeads_eq_of_map_head? h.map_head?_eq 0 none

/-- Fronts stay fronts when a head leaves, unless that was the last element to be seen. -/
theorem dropHead (h : FrontsOf visible whole) {i : Nat}
    (hstays : (KWayMerge.dropHead visible i).getD i [] ≠ []) :
    FrontsOf (KWayMerge.dropHead visible i) (KWayMerge.dropHead whole i) := by
  refine ⟨by rw [length_dropHead, length_dropHead, h.length_eq], ?_, ?_⟩
  · intro j
    rw [getD_dropHead, getD_dropHead]
    split
    · rw [← List.drop_one, ← List.drop_one]
      exact (h.isPrefix j).drop 1
    · exact h.isPrefix j
  · intro j hj
    by_cases hij : i = j
    · subst hij
      exact absurd hj hstays
    · rw [getD_dropHead, if_neg hij] at hj ⊢
      exact h.eq_nil j hj

end FrontsOf

/--
**A suspended merge of fronts takes the first picks from the whole runs.** It is suspended at the
latest when a run that it cannot see further into is about to be missed.
-/
theorem picks_whenRunEnds {visible whole : List (List α)} (h : FrontsOf visible whole)
    (capacity : Nat) :
    picks cmp .whenRunEnds capacity visible =
      picks cmp .atCapacity (picks cmp .whenRunEnds capacity visible).length whole := by
  induction capacity generalizing visible whole with
  | zero => rfl
  | succ capacity ih =>
      rw [picks_succ]
      cases hfront : front? cmp visible with
      | none => rfl
      | some pick =>
          dsimp only
          rw [List.length_cons, picks_atCapacity_succ, ← h.front?_eq, hfront]
          dsimp only
          split
          · rfl
          · rename_i hgoes
            have hstays : (dropHead visible pick.run).getD pick.run [] ≠ [] := by
              simpa [StopRule.suspends] using hgoes
            rw [← ih (h.dropHead hstays)]

end KWayMerge
