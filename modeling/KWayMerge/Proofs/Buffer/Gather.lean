import KWayMerge.Proofs.Merge.HeadMerge
import Mathlib.Logic.Relation

/-!
# Gathering adjacent segments

A buffer under selection is a row of segments, of each of which only the first `k` elements count.
Everything that is done to it, in rounds as in folds, has one form: adjacent segments become one,
and the first `k` elements of their merge are written over its front. What stands behind them is
stale and is not looked at again.

Under a total preorder such a step keeps the first `k` elements of the head merge of all
segments, whatever they hold, and so does any sequence of steps.

**Results.**
* `take_gather`: the front of a gathered segment is the front of the merge of its parts.
* `Gathers.take_headMerge`: gathering keeps the first `k` elements of the head merge.
* `Gathers.take_of_singleton`: once a single segment is left, these elements stand at its front.
-/

namespace KWayMerge

universe u

variable {α : Type u} {cmp : Comparator α} {k : Nat}

@[simp] theorem length_overwrite (xs dst : List α) : (overwrite xs dst).length = dst.length := by
  simp only [overwrite, List.length_append, List.length_take, List.length_drop]
  omega

theorem overwrite_append {xs dst : List α} (h : xs.length ≤ dst.length) (rest : List α) :
    overwrite xs (dst ++ rest) = overwrite xs dst ++ rest := by
  rw [overwrite, overwrite, List.take_of_length_le h, List.length_append,
    List.take_of_length_le (by omega), List.drop_append_of_le_length h, List.append_assoc]

/-- Adjacent segments as one, with the first `k` elements of their merge at its front. -/
def gather (cmp : Comparator α) (k : Nat) (group : List (List α)) : List α :=
  overwrite ((picks cmp .atCapacity k group).map Pick.value) group.flatten

@[simp] theorem length_gather (group : List (List α)) :
    (gather cmp k group).length = group.flatten.length :=
  length_overwrite _ _

@[simp] theorem gather_nil : gather cmp k [] = [] :=
  List.length_eq_zero_iff.1 (length_gather [])

theorem length_map_value_picks_le (group : List (List α)) :
    ((picks cmp .atCapacity k group).map Pick.value).length ≤ group.flatten.length := by
  rw [List.length_map, length_picks]
  omega

theorem take_gather (group : List (List α)) :
    (gather cmp k group).take k = (picks cmp .atCapacity k group).map Pick.value := by
  have hle : ((picks cmp .atCapacity k group).map Pick.value).length ≤ group.flatten.length :=
    length_map_value_picks_le group
  rw [gather, overwrite, List.take_of_length_le hle]
  by_cases hk : k ≤ group.flatten.length
  · have hlength : ((picks cmp .atCapacity k group).map Pick.value).length = k := by
      rw [List.length_map, length_picks, Nat.min_eq_left hk]
    exact List.take_left' hlength
  · have hlength : ((picks cmp .atCapacity k group).map Pick.value).length =
        group.flatten.length := by
      rw [List.length_map, length_picks, Nat.min_eq_right (by omega)]
    rw [hlength, List.drop_length, List.append_nil, List.take_of_length_le (by omega)]

theorem gather_singleton (block : List α) : gather cmp k [block] = block := by
  rw [gather, map_value_picks_singleton, List.flatten_singleton, overwrite, List.take_take,
    List.length_take]
  by_cases hk : k ≤ block.length
  · rw [Nat.min_eq_right hk, Nat.min_eq_left hk, List.take_append_drop]
  · rw [Nat.min_eq_left (by omega), Nat.min_eq_right (by omega), List.take_append_drop]

/-! ### Sequences of gathers -/

/-- A group of adjacent segments is gathered, and the others stay. -/
inductive GatherStep (cmp : Comparator α) (k : Nat) : List (List α) → List (List α) → Prop
  | mk (left group right : List (List α)) :
      GatherStep cmp k (left ++ group ++ right) (left ++ gather cmp k group :: right)

/-- Groups of adjacent segments are gathered one after another. -/
abbrev Gathers (cmp : Comparator α) (k : Nat) : List (List α) → List (List α) → Prop :=
  Relation.ReflTransGen (GatherStep cmp k)

theorem gathers_map (left : List (List α)) (groups : List (List (List α)))
    (right : List (List α)) :
    Gathers cmp k (left ++ groups.flatten ++ right)
      (left ++ groups.map (gather cmp k) ++ right) := by
  induction groups generalizing left with
  | nil => exact Relation.ReflTransGen.refl
  | cons group groups ih =>
      have hstep : GatherStep cmp k (left ++ group ++ (groups.flatten ++ right))
          (left ++ gather cmp k group :: (groups.flatten ++ right)) := .mk _ _ _
      have hrest := ih (left ++ [gather cmp k group])
      simp only [List.append_assoc, List.flatten_cons, List.map_cons, List.cons_append,
        List.nil_append] at hstep hrest ⊢
      exact Relation.ReflTransGen.head hstep hrest

theorem GatherStep.length_flatten {segments others : List (List α)}
    (h : GatherStep cmp k segments others) :
    others.flatten.length = segments.flatten.length := by
  cases h with
  | mk left group right =>
      simp only [List.flatten_append, List.flatten_cons, List.length_append, length_gather]
      omega

theorem Gathers.length_flatten {segments others : List (List α)}
    (h : Gathers cmp k segments others) :
    others.flatten.length = segments.flatten.length := by
  induction h with
  | refl => rfl
  | tail _ hstep ih => rw [hstep.length_flatten, ih]

section Preorder

variable [Std.TransCmp cmp]

/-- Segments that count as a whole are gathered into their head merge. -/
theorem gather_eq_headMerge {group : List (List α)} (hk : group.flatten.length ≤ k) :
    gather cmp k group = headMerge cmp group := by
  have hall : (gather cmp k group).length ≤ k := by rwa [length_gather]
  rw [← List.take_of_length_le hall, take_gather, map_value_picks,
    List.take_of_length_le (by rwa [length_headMerge])]

theorem GatherStep.take_headMerge {segments others : List (List α)}
    (h : GatherStep cmp k segments others) :
    (headMerge cmp others).take k = (headMerge cmp segments).take k := by
  cases h with
  | mk left group right =>
      have hfront : (gather cmp k group).take k = (headMerge cmp group).take k := by
        rw [take_gather, map_value_picks]
      rw [← headMerge_append_headMerge_cons left group right]
      refine take_headMerge_eq_of_map_take_eq ?_
      simp only [List.map_append, List.map_cons, hfront]

/-- **Gathering keeps the first `k` elements of the head merge.** -/
theorem Gathers.take_headMerge {segments others : List (List α)}
    (h : Gathers cmp k segments others) :
    (headMerge cmp others).take k = (headMerge cmp segments).take k := by
  induction h with
  | refl => rfl
  | tail _ hstep ih => rw [hstep.take_headMerge, ih]

/-- **A single segment that is left has the first elements of the head merge at its front.** -/
theorem Gathers.take_of_singleton {segments : List (List α)} {front : List α}
    (h : Gathers cmp k segments [front]) :
    front.take k = (headMerge cmp segments).take k := by
  rw [← h.take_headMerge, headMerge_singleton]

end Preorder
end KWayMerge
