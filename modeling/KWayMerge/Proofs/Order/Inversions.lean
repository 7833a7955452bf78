import KWayMerge.Proofs.Order.StableSort
import Mathlib.Data.List.Chain
import Mathlib.Order.Bounds.Basic

/-!
# Inversions of a list

The search for an inversion compares neighbours only. Under a total preorder that is enough: if no
element precedes its predecessor, none precedes any element before it. And as the search runs from
the front, the place at which it stops is the length of the longest ordered front.

**Results.**
* `firstInversion?_eq_none_iff_ordered`: no inversion is found exactly in an ordered list.
* `firstInversion?_take`: a front of a list has the inversion of the list, if it reaches so far.
* `firstInversion?_eq_some_iff`: the place that is found is the length of the longest ordered
  front of a list that is out of order.
-/

namespace KWayMerge

universe u

namespace Comparator

variable {α : Type u}

/-- Some element precedes one that stands before it, whatever stands between them. -/
def Disordered (cmp : Comparator α) (xs : List α) : Prop :=
  ∃ x y, [x, y].Sublist xs ∧ cmp.precedes y x = true

/-- The lengths of the ordered fronts of a list. -/
def orderedFronts (cmp : Comparator α) (xs : List α) : Set Nat :=
  {n | n ≤ xs.length ∧ cmp.Ordered (xs.take n)}

theorem firstInversion?_cons_cons (cmp : Comparator α) (x y : α) (rest : List α) :
    cmp.firstInversion? (x :: y :: rest) =
      if cmp.precedes y x then some 1 else (cmp.firstInversion? (y :: rest)).map (· + 1) :=
  rfl

/-- **A front of a list has the inversion of the list, if it reaches so far.** -/
theorem firstInversion?_take (cmp : Comparator α) :
    ∀ (n : Nat) (xs : List α),
      cmp.firstInversion? (xs.take n) = (cmp.firstInversion? xs).filter fun i => i < n
  | 0, xs => by
      rw [List.take_zero, firstInversion?]
      cases cmp.firstInversion? xs with
      | none => rfl
      | some i => rw [Option.filter_some_neg (by simp)]
  | n + 1, [] => rfl
  | n + 1, [x] => by
      rw [List.take_succ_cons, List.take_nil]
      rfl
  | 1, x :: y :: rest => by
      rw [firstInversion?_cons_cons]
      split
      · rfl
      · cases cmp.firstInversion? (y :: rest) with
        | none => rfl
        | some i =>
            rw [Option.map_some, Option.filter_some_neg (by simp)]
            rfl
  | n + 2, x :: y :: rest => by
      have ih := firstInversion?_take cmp (n + 1) (y :: rest)
      rw [List.take_succ_cons] at ih
      rw [List.take_succ_cons, List.take_succ_cons, firstInversion?_cons_cons,
        firstInversion?_cons_cons, ih]
      split
      · rw [Option.filter_some_pos (by simp)]
      · rw [Option.filter_map]
        simp only [Function.comp_def, Nat.add_lt_add_iff_right]

/-- An inversion is found at one of the places of the list. -/
theorem lt_length_of_firstInversion? {cmp : Comparator α} {xs : List α} {i : Nat}
    (h : cmp.firstInversion? xs = some i) : i < xs.length := by
  have hall := firstInversion?_take cmp xs.length xs
  rw [List.take_length, h, eq_comm, Option.filter_some_eq_some, decide_eq_true_eq] at hall
  exact hall

section Preorder

variable {cmp : Comparator α} [Std.TransCmp cmp] {xs : List α}

/-- **No inversion is found exactly in an ordered list.** -/
theorem firstInversion?_eq_none_iff_ordered : cmp.firstInversion? xs = none ↔ cmp.Ordered xs := by
  have : Trans (fun a b => (cmp a b).isLE = true) (fun a b => (cmp a b).isLE = true)
      (fun a b => (cmp a b).isLE = true) := ⟨Std.TransCmp.isLE_trans⟩
  rw [firstInversion?_eq_none_iff, Ordered, ← List.isChain_iff_pairwise,
    List.isChain_iff_forall_rel_of_append_cons_cons]
  constructor
  · intro h x y left right heq
    exact precedes_eq_false_iff.1 (h left x y right heq)
  · intro h left x y right heq
    exact precedes_eq_false_iff.2 (h heq)

theorem not_ordered_iff_disordered : ¬ cmp.Ordered xs ↔ cmp.Disordered xs := by
  rw [Ordered, List.pairwise_iff_forall_sublist, Disordered]
  push Not
  refine exists_congr fun x => exists_congr fun y => and_congr_right fun _ => ?_
  rw [ne_eq, ← precedes_eq_false_iff, Bool.not_eq_false]

theorem not_disordered_iff_ordered : ¬ cmp.Disordered xs ↔ cmp.Ordered xs := by
  rw [← not_ordered_iff_disordered, not_not]

/-- A front is ordered exactly if it does not reach beyond the place that is found. -/
theorem ordered_take_iff {i : Nat} (h : cmp.firstInversion? xs = some i) (n : Nat) :
    cmp.Ordered (xs.take n) ↔ n ≤ i := by
  rw [← firstInversion?_eq_none_iff_ordered, firstInversion?_take, h, Option.filter_some_eq_none,
    decide_eq_true_eq, Nat.not_lt]

theorem isGreatest_orderedFronts {i : Nat} (h : cmp.firstInversion? xs = some i) :
    IsGreatest (cmp.orderedFronts xs) i := by
  refine ⟨⟨(lt_length_of_firstInversion? h).le, (ordered_take_iff h i).2 (Nat.le_refl i)⟩, ?_⟩
  rintro n ⟨-, hn⟩
  exact (ordered_take_iff h n).1 hn

/-- **The place that is found is the length of the longest ordered front.** -/
theorem firstInversion?_eq_some_iff {i : Nat} :
    cmp.firstInversion? xs = some i ↔
      cmp.Disordered xs ∧ IsGreatest (cmp.orderedFronts xs) i := by
  rw [← not_ordered_iff_disordered, ← firstInversion?_eq_none_iff_ordered]
  constructor
  · intro h
    refine ⟨?_, isGreatest_orderedFronts h⟩
    rw [h]
    exact Option.some_ne_none i
  · rintro ⟨hsome, hgreatest⟩
    obtain ⟨j, hj⟩ := Option.ne_none_iff_exists'.1 hsome
    rw [hj, (isGreatest_orderedFronts hj).unique hgreatest]

end Preorder
end Comparator
end KWayMerge
