import KWayMerge.Merge.Pick
import KWayMerge.Proofs.Order.StableSort

/-!
# The head that leaves a merge next

Of the heads of several runs the next one to leave precedes all heads in lower runs and is
preceded by none in higher runs. Under a total preorder there is always such a head. The scan
that a merge makes finds it under any comparator, since it rests on these two facts alone.

**Results.**
* `front?_eq_some`: the scan gives the head of a run, under any comparator.
* `front?_of_leads`: it gives the leading head where there is one.
* `exists_leads`: under a total preorder there is one.
-/

namespace KWayMerge

universe u

variable {α : Type u} {cmp : Comparator α}

/-- The first elements of the runs that hold any. -/
def heads (runs : List (List α)) : List α :=
  runs.filterMap List.head?

@[simp] theorem heads_nil : heads ([] : List (List α)) = [] :=
  rfl

@[simp] theorem heads_cons_nil (runs : List (List α)) : heads ([] :: runs) = heads runs :=
  rfl

@[simp] theorem heads_cons_cons (x : α) (rest : List α) (runs : List (List α)) :
    heads ((x :: rest) :: runs) = x :: heads runs :=
  rfl

@[simp] theorem heads_append (left right : List (List α)) :
    heads (left ++ right) = heads left ++ heads right :=
  List.filterMap_append

theorem head_mem_heads {x : α} {rest : List α} {runs : List (List α)}
    (h : x :: rest ∈ runs) : x ∈ heads runs :=
  List.mem_filterMap.2 ⟨x :: rest, h, rfl⟩

theorem heads_eq_nil_iff {runs : List (List α)} : heads runs = [] ↔ runs.flatten = [] := by
  simp [heads]

/-! ### The scan under any comparator -/

/-- The scan begins with the best head so far and ends with that one or the head of a run. -/
theorem scanHeads_eq_some {runs : List (List α)} {i : Nat} {best : Option (Pick α)}
    {pick : Pick α} (h : scanHeads cmp i best runs = some pick) :
    best = some pick ∨
      ∃ left rest right, runs = left ++ (pick.value :: rest) :: right ∧
        pick.run = i + left.length := by
  induction runs generalizing i best with
  | nil => exact Or.inl h
  | cons run runs ih =>
      rw [scanHeads] at h
      rcases ih h with hbest | ⟨left, rest, right, rfl, hrun⟩
      · cases run with
        | nil => exact Or.inl hbest
        | cons head tail =>
            have hcases : best = some pick ∨ pick = ⟨i, head⟩ := by
              cases best with
              | none =>
                  simp only [challenge, Option.some.injEq] at hbest
                  exact Or.inr hbest.symm
              | some champion =>
                  simp only [challenge] at hbest
                  split at hbest
                  · exact Or.inr (Option.some.inj hbest).symm
                  · exact Or.inl hbest
            rcases hcases with hcases | rfl
            · exact Or.inl hcases
            · exact Or.inr ⟨[], tail, runs, rfl, rfl⟩
      · refine Or.inr ⟨run :: left, rest, right, rfl, ?_⟩
        rw [hrun, List.length_cons]
        omega

theorem scanHeads_some_ne_none {runs : List (List α)} {i : Nat} {champion : Pick α} :
    scanHeads cmp i (some champion) runs ≠ none := by
  induction runs generalizing i champion with
  | nil => simp [scanHeads]
  | cons run runs ih =>
      rw [scanHeads]
      cases run with
      | nil => exact ih
      | cons head tail =>
          simp only [challenge]
          split
          · exact ih
          · exact ih

theorem scanHeads_none_eq_none_iff {runs : List (List α)} {i : Nat} :
    scanHeads cmp i none runs = none ↔ runs.flatten = [] := by
  induction runs generalizing i with
  | nil => simp [scanHeads]
  | cons run runs ih =>
      rw [scanHeads]
      cases run with
      | nil => simpa [challenge] using ih
      | cons head tail => simpa [challenge] using scanHeads_some_ne_none

/-- A head that leaves is the head of the run it is said to come from. -/
theorem front?_eq_some {runs : List (List α)} {pick : Pick α}
    (h : front? cmp runs = some pick) :
    ∃ left rest right, runs = left ++ (pick.value :: rest) :: right ∧
      pick.run = left.length := by
  rcases scanHeads_eq_some h with hnone | ⟨left, rest, right, hruns, hrun⟩
  · simp at hnone
  · exact ⟨left, rest, right, hruns, by omega⟩

theorem front?_eq_none_iff {runs : List (List α)} :
    front? cmp runs = none ↔ runs.flatten = [] :=
  scanHeads_none_eq_none_iff

theorem dropHead_append_cons (left right : List (List α)) (x : α) (rest : List α) :
    dropHead (left ++ (x :: rest) :: right) left.length = left ++ rest :: right := by
  induction left with
  | nil => rfl
  | cons run left ih =>
      rw [dropHead] at ih
      simp [dropHead, ih]

/-! ### The leading head -/

/--
A head between the runs `left` and `right` leads if it precedes the heads on its left and is not
preceded by those on its right.
-/
structure Leads (cmp : Comparator α) (left : List (List α)) (x : α)
    (right : List (List α)) : Prop where
  before : ∀ y ∈ heads left, cmp.precedes x y = true
  after : ∀ y ∈ heads right, cmp.precedes y x = false

theorem Leads.mono {left left' right right' : List (List α)} {x : α}
    (h : Leads cmp left x right) (hleft : heads left' ⊆ heads left)
    (hright : heads right' ⊆ heads right) : Leads cmp left' x right' :=
  ⟨fun y hy => h.before y (hleft hy), fun y hy => h.after y (hright hy)⟩

theorem scanHeads_of_forall_not_precedes {runs : List (List α)} {i : Nat} {champion : Pick α}
    (h : ∀ y ∈ heads runs, cmp.precedes y champion.value = false) :
    scanHeads cmp i (some champion) runs = some champion := by
  induction runs generalizing i with
  | nil => rfl
  | cons run runs ih =>
      cases run with
      | nil => exact ih h
      | cons head tail =>
          rw [heads_cons_cons, List.forall_mem_cons] at h
          simp only [scanHeads, challenge, h.1, Bool.false_eq_true, if_false]
          exact ih h.2

theorem scanHeads_append (left right : List (List α)) (i : Nat) (best : Option (Pick α)) :
    scanHeads cmp i best (left ++ right) =
      scanHeads cmp (i + left.length) (scanHeads cmp i best left) right := by
  induction left generalizing i best with
  | nil => rfl
  | cons run left ih =>
      rw [List.cons_append, scanHeads, ih, scanHeads, List.length_cons]
      congr 1
      omega

/-- **The scan gives the leading head.** -/
theorem front?_of_leads {left right : List (List α)} {x : α} {rest : List α}
    (h : Leads cmp left x right) :
    front? cmp (left ++ (x :: rest) :: right) = some ⟨left.length, x⟩ := by
  rw [front?, scanHeads_append, Nat.zero_add, scanHeads]
  have hwins : challenge cmp (scanHeads cmp 0 none left) left.length (x :: rest) =
      some ⟨left.length, x⟩ := by
    cases hbest : scanHeads cmp 0 none left with
    | none => rfl
    | some champion =>
        obtain ⟨before, tail, behind, rfl, -⟩ := front?_eq_some hbest
        have hprecedes := h.before champion.value
          (head_mem_heads (List.mem_append_right before List.mem_cons_self))
        simp only [challenge, hprecedes, if_true]
  rw [hwins]
  exact scanHeads_of_forall_not_precedes h.after

/-- **Under a total preorder some head leads, unless all runs are empty.** -/
theorem exists_leads (cmp : Comparator α) [Std.TransCmp cmp] :
    ∀ {runs : List (List α)}, runs.flatten ≠ [] →
      ∃ left x rest right, runs = left ++ (x :: rest) :: right ∧ Leads cmp left x right
  | [], h => by simp at h
  | [] :: runs, h => by
      have hruns : runs.flatten ≠ [] := by simpa using h
      obtain ⟨left, x, rest, right, rfl, hleads⟩ := exists_leads cmp hruns
      exact ⟨[] :: left, x, rest, right, rfl, ⟨hleads.before, hleads.after⟩⟩
  | (y :: tail) :: runs, _ => by
      by_cases hempty : runs.flatten = []
      · refine ⟨[], y, tail, runs, rfl, ⟨by simp, ?_⟩⟩
        rw [heads_eq_nil_iff.2 hempty]
        simp
      · obtain ⟨left, x, rest, right, rfl, hleads⟩ := exists_leads cmp hempty
        by_cases hxy : cmp.precedes x y = true
        · refine ⟨(y :: tail) :: left, x, rest, right, rfl, ⟨?_, hleads.after⟩⟩
          rw [heads_cons_cons, List.forall_mem_cons]
          exact ⟨hxy, hleads.before⟩
        · refine ⟨[], y, tail, left ++ (x :: rest) :: right, rfl, ⟨by simp, ?_⟩⟩
          -- the leading head of the other runs does not precede `y`, so none of them does
          have hyx : (cmp y x).isLE = true :=
            Comparator.precedes_eq_false_iff.1 (by simpa using hxy)
          intro z hz
          rw [Comparator.precedes_eq_false_iff]
          refine Std.TransCmp.isLE_trans hyx ?_
          simp only [heads_append, heads_cons_cons, List.mem_append, List.mem_cons] at hz
          rcases hz with hz | rfl | hz
          · exact Comparator.isLE_of_precedes (hleads.before z hz)
          · exact Std.ReflCmp.isLE_rfl
          · exact Comparator.precedes_eq_false_iff.1 (hleads.after z hz)

end KWayMerge
