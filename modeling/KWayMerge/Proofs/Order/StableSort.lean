import KWayMerge.Comparator
import Mathlib.Tactic

/-!
# Stable sorts under a total preorder

A comparator is a total preorder when swapping its arguments swaps its answer and "not after" is
transitive; this is the class `Std.TransCmp` of the core library. Elements may compare equal
without being equal, so a sorted list is not determined by its elements. What determines it is,
for each element, the sequence of those that compare equal to it.

**Results.**
* `eq_stableSort`: an ordered list with the same sequence of like elements everywhere is the
  stable sort.
* `stableSort_flatten_map`: sorting parts beforehand does not change the stable sort of the whole.
* `stableSort_append_cons`: the first element of a stable sort is the first of the least elements.
-/

namespace KWayMerge

universe u v

namespace Comparator

variable {α : Type u} {β : Type v}

/-- No element stands after one that it precedes. -/
def Ordered (cmp : Comparator α) (xs : List α) : Prop :=
  xs.Pairwise fun a b => (cmp a b).isLE = true

instance (cmp : Comparator α) (xs : List α) : Decidable (cmp.Ordered xs) :=
  inferInstanceAs (Decidable (xs.Pairwise _))

/-- Whether two elements compare equal. -/
def alike (cmp : Comparator α) (a b : α) : Bool :=
  cmp a b == .eq

theorem alike_iff (cmp : Comparator α) (a b : α) :
    cmp.alike a b = true ↔ cmp a b = .eq := by
  simp [alike]

theorem isLE_of_precedes {cmp : Comparator α} {a b : α} (h : cmp.precedes a b = true) :
    (cmp a b).isLE = true := by
  rw [(precedes_iff cmp a b).1 h]
  rfl

theorem perm_stableSort (cmp : Comparator α) (xs : List α) : (cmp.stableSort xs).Perm xs :=
  List.mergeSort_perm xs _

@[simp] theorem length_stableSort (cmp : Comparator α) (xs : List α) :
    (cmp.stableSort xs).length = xs.length :=
  (perm_stableSort _ xs).length_eq

@[simp] theorem mem_stableSort {cmp : Comparator α} {a : α} {xs : List α} :
    a ∈ cmp.stableSort xs ↔ a ∈ xs :=
  (perm_stableSort _ xs).mem_iff

section Preorder

variable {cmp : Comparator α} [Std.TransCmp cmp]

theorem precedes_eq_false_iff {a b : α} :
    cmp.precedes b a = false ↔ (cmp a b).isLE = true := by
  rw [← Bool.not_eq_true, precedes_iff, ← Std.OrientedCmp.gt_iff_lt]
  cases cmp a b <;> simp

theorem precedes_asymm {a b : α} (h : cmp.precedes a b = true) : cmp.precedes b a = false := by
  rw [precedes_iff] at h
  rw [precedes_eq_false_iff, h]
  rfl

theorem precedes_of_precedes_of_isLE {a b c : α}
    (hab : cmp.precedes a b = true) (hbc : (cmp b c).isLE = true) :
    cmp.precedes a c = true := by
  rw [precedes_iff] at hab ⊢
  exact Std.TransCmp.lt_of_lt_of_isLE hab hbc

theorem alike_self (a : α) : cmp.alike a a = true :=
  (alike_iff cmp a a).2 Std.ReflCmp.compare_self

/-- An element is like another only if neither precedes the other. -/
theorem alike_eq_false_of_precedes {a b c : α}
    (hac : cmp.alike a b = true) (hbc : cmp.precedes b c = true) :
    cmp.alike a c = false := by
  rw [alike_iff] at hac
  rw [precedes_iff] at hbc
  rw [← Bool.not_eq_true, alike_iff, Std.TransCmp.congr_left hac, hbc]
  simp

/-! ### The stable sort -/

theorem isLE_total (a b : α) : ((cmp a b).isLE || (cmp b a).isLE) = true := by
  have hswap : cmp b a = (cmp a b).swap := Std.OrientedCmp.eq_swap
  rw [hswap]
  cases cmp a b <;> rfl

theorem ordered_stableSort (xs : List α) : cmp.Ordered (cmp.stableSort xs) :=
  List.pairwise_mergeSort (fun _ _ _ => Std.TransCmp.isLE_trans) isLE_total xs

theorem ordered_filter_alike (a : α) (xs : List α) :
    cmp.Ordered (xs.filter (cmp.alike a)) := by
  rw [Ordered, List.pairwise_filter]
  refine List.pairwise_of_forall ?_
  intro x y hx hy
  rw [alike_iff] at hx hy
  rw [← Std.TransCmp.congr_left hx, hy]
  rfl

/-- Sorting keeps like elements in their sequence. -/
theorem filter_alike_stableSort (a : α) (xs : List α) :
    (cmp.stableSort xs).filter (cmp.alike a) = xs.filter (cmp.alike a) := by
  have hsub : (xs.filter (cmp.alike a)).Sublist (cmp.stableSort xs) :=
    List.sublist_mergeSort (fun _ _ _ => Std.TransCmp.isLE_trans) isLE_total
      (ordered_filter_alike a xs) List.filter_sublist
  have hfilter := hsub.filter (cmp.alike a)
  rw [List.filter_filter] at hfilter
  simp only [Bool.and_self] at hfilter
  exact (hfilter.eq_of_length ((perm_stableSort cmp xs).filter _).length_eq.symm).symm

theorem isLE_head_of_mem {x y : α} {xs : List α}
    (h : cmp.Ordered (x :: xs)) (hy : y ∈ x :: xs) : (cmp x y).isLE = true := by
  rcases List.mem_cons.1 hy with rfl | hy
  · exact Std.ReflCmp.isLE_rfl
  · exact (List.pairwise_cons.1 h).1 y hy

theorem mem_of_filter_alike_eq {xs ys : List α} {a : α}
    (h : xs.filter (cmp.alike a) = ys.filter (cmp.alike a)) (ha : a ∈ xs) : a ∈ ys := by
  have hmem : a ∈ xs.filter (cmp.alike a) := List.mem_filter.2 ⟨ha, alike_self a⟩
  rw [h] at hmem
  exact (List.mem_filter.1 hmem).1

theorem eq_of_filter_alike :
    ∀ {xs ys : List α}, cmp.Ordered xs → cmp.Ordered ys →
      (∀ a, xs.filter (cmp.alike a) = ys.filter (cmp.alike a)) → xs = ys
  | [], [], _, _, _ => rfl
  | [], y :: ys, _, _, h => by
      have := mem_of_filter_alike_eq (h y).symm List.mem_cons_self
      simp at this
  | x :: xs, [], _, _, h => by
      have := mem_of_filter_alike_eq (h x) List.mem_cons_self
      simp at this
  | x :: xs, y :: ys, hxs, hys, h => by
      have hxy : (cmp x y).isLE = true :=
        isLE_head_of_mem hxs (mem_of_filter_alike_eq (h y).symm List.mem_cons_self)
      have hyx : (cmp y x).isLE = true :=
        isLE_head_of_mem hys (mem_of_filter_alike_eq (h x) List.mem_cons_self)
      have heq : cmp.alike x y = true :=
        (alike_iff cmp x y).2 (Std.OrientedCmp.isLE_antisymm hxy hyx)
      have hhead := h x
      rw [List.filter_cons_of_pos (alike_self x), List.filter_cons_of_pos heq] at hhead
      obtain ⟨rfl, -⟩ := List.cons.inj hhead
      have htail : ∀ a, xs.filter (cmp.alike a) = ys.filter (cmp.alike a) := by
        intro a
        have ha := h a
        simp only [List.filter_cons] at ha
        split at ha
        · exact (List.cons.inj ha).2
        · exact ha
      rw [eq_of_filter_alike (List.pairwise_cons.1 hxs).2 (List.pairwise_cons.1 hys).2 htail]

/-- **The stable sort is the only ordered list that keeps the sequences of like elements.** -/
theorem eq_stableSort {xs ys : List α} (hys : cmp.Ordered ys)
    (h : ∀ a, ys.filter (cmp.alike a) = xs.filter (cmp.alike a)) :
    ys = cmp.stableSort xs := by
  refine eq_of_filter_alike hys (ordered_stableSort xs) ?_
  intro a
  rw [filter_alike_stableSort, h a]

/-- Sorting parts beforehand does not change the stable sort of the whole. -/
theorem stableSort_flatten_map (parts : List (List α)) :
    cmp.stableSort (parts.map cmp.stableSort).flatten = cmp.stableSort parts.flatten := by
  refine eq_stableSort (ordered_stableSort _) ?_
  intro a
  rw [filter_alike_stableSort, List.filter_flatten, List.filter_flatten, List.map_map]
  congr 1
  refine List.map_congr_left ?_
  intro part _
  exact filter_alike_stableSort a part

/--
The first element of a stable sort: an element that precedes all those before it and is not
preceded by any of those after it.
-/
theorem stableSort_append_cons {left right : List α} {x : α}
    (hleft : ∀ y ∈ left, cmp.precedes x y = true)
    (hright : ∀ y ∈ right, cmp.precedes y x = false) :
    cmp.stableSort (left ++ x :: right) = x :: cmp.stableSort (left ++ right) := by
  refine (eq_stableSort ?_ ?_).symm
  · refine List.pairwise_cons.2 ⟨?_, ordered_stableSort _⟩
    intro y hy
    rw [mem_stableSort, List.mem_append] at hy
    rcases hy with hy | hy
    · exact isLE_of_precedes (hleft y hy)
    · exact precedes_eq_false_iff.1 (hright y hy)
  · intro a
    by_cases hax : cmp.alike a x = true
    · have hnone : left.filter (cmp.alike a) = [] := by
        refine List.filter_eq_nil_iff.2 ?_
        intro y hy
        simpa using alike_eq_false_of_precedes hax (hleft y hy)
      rw [List.filter_cons_of_pos hax, filter_alike_stableSort, List.filter_append,
        List.filter_append, hnone, List.filter_cons_of_pos hax]
      rfl
    · rw [List.filter_cons_of_neg hax, filter_alike_stableSort, List.filter_append,
        List.filter_append, List.filter_cons_of_neg hax]

/--
A list whose elements are numbered in increasing order is sorted stably by sorting like elements
by their numbers.
-/
theorem stableSort_then {place : α → Nat} {xs : List α}
    (h : xs.Pairwise fun a b => place a < place b) :
    Comparator.stableSort (compareLex cmp (compareOn place)) xs = cmp.stableSort xs := by
  have hinj : ∀ x ∈ xs, ∀ y ∈ xs, place x = place y → x = y := by
    have hnodup : (xs.map place).Nodup := List.pairwise_map.2 (h.imp Nat.ne_of_lt)
    exact List.inj_on_of_nodup_map hnodup
  have hsorted : (Comparator.stableSort (compareLex cmp (compareOn place)) xs).Pairwise
      fun a b => (compareLex cmp (compareOn place) a b).isLE = true :=
    ordered_stableSort xs
  refine eq_stableSort ?_ ?_
  · refine hsorted.imp ?_
    intro a b hab
    exact (Ordering.isLE_then_iff_and.1 hab).1
  · intro a
    -- in both lists the elements like `a` stand in the order of their numbers
    refine List.Perm.eq_of_pairwise ?_ ?_ ((h.filter _).imp Nat.le_of_lt)
      ((perm_stableSort _ xs).filter _)
    · intro x y hx hy hxy hyx
      have hmem := mem_stableSort.1 (List.mem_filter.1 hx).1
      exact hinj x hmem y (List.mem_filter.1 hy).1 (Nat.le_antisymm hxy hyx)
    · refine (hsorted.filter _).imp_of_mem ?_
      intro x y hx hy hxy
      have hax := (alike_iff cmp a x).1 (List.mem_filter.1 hx).2
      have hay := (alike_iff cmp a y).1 (List.mem_filter.1 hy).2
      have heq : cmp x y = .eq := by
        rw [← Std.TransCmp.congr_left hax, hay]
      rcases (Ordering.isLE_then_iff_and.1 hxy).2 with hlt | hle
      · rw [heq] at hlt
        cases hlt
      · exact Nat.isLE_compare.1 hle

end Preorder

/-- Sorting by what a function reads off the elements, and reading it off the sorted list. -/
theorem map_stableSort {cmp : Comparator β} (f : α → β) (xs : List α) :
    (Comparator.stableSort (fun a b => cmp (f a) (f b)) xs).map f =
      cmp.stableSort (xs.map f) :=
  List.map_mergeSort fun _ _ _ _ => rfl

/-- The order that a function reads off the elements is a total preorder if its values have one. -/
instance transCmp_comap {cmp : Comparator β} [Std.TransCmp cmp] (f : α → β) :
    Std.TransCmp (fun a b : α => cmp (f a) (f b)) where
  eq_swap {a b} :=
    show cmp (f a) (f b) = (cmp (f b) (f a)).swap from Std.OrientedCmp.eq_swap
  isLE_trans hab hbc :=
    Std.TransCmp.isLE_trans (show (cmp _ _).isLE = true from hab) hbc

/-- Numbers compared by their tens: a total preorder under which different numbers are alike. -/
def byTens : Comparator Nat :=
  fun a b => compare (a / 10) (b / 10)

instance : Std.TransCmp byTens :=
  transCmp_comap (· / 10)

end Comparator
end KWayMerge
