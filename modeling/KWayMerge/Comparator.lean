/-!
# Comparators

A comparator says, of two elements, which leaves a merge first. Nothing in a merge looks at
elements in another way, and no merge assumes that a comparator obeys any law: the laws are
hypotheses of the theorems that need them.

**Results.** `precedes_iff` reads the strict order off the comparator, and
`firstInversion?_eq_none_iff` says that a run without an inversion is one in which no element
precedes its predecessor.
-/

namespace KWayMerge

universe u

/-- `cmp a b` is `lt` when `a` leaves before `b`, and `eq` when neither has to. -/
abbrev Comparator (α : Type u) := α → α → Ordering

namespace Comparator

variable {α : Type u}

/-- Strictly before: elements that compare equal never precede each other. -/
def precedes (cmp : Comparator α) (a b : α) : Bool :=
  cmp a b == .lt

theorem precedes_iff (cmp : Comparator α) (a b : α) :
    cmp.precedes a b = true ↔ cmp a b = .lt := by
  simp [precedes]

/-- The stable arrangement of a list: equal elements keep their places relative to each other. -/
def stableSort (cmp : Comparator α) (xs : List α) : List α :=
  xs.mergeSort fun a b => (cmp a b).isLE

/-- The position of the first element that precedes its predecessor. -/
def firstInversion? (cmp : Comparator α) : List α → Option Nat
  | [] => none
  | [_] => none
  | a :: b :: rest =>
      if cmp.precedes b a then
        some 1
      else
        (cmp.firstInversion? (b :: rest)).map (· + 1)

/-- A run has no inversion exactly when each neighbour pair is in order. -/
theorem firstInversion?_eq_none_iff (cmp : Comparator α) :
    ∀ xs : List α,
      cmp.firstInversion? xs = none ↔
        ∀ left a b right, xs = left ++ a :: b :: right → cmp.precedes b a = false
  | [] => by simp [firstInversion?]
  | [x] => by
      simp only [firstInversion?, true_iff]
      intro left a b right h
      have := congrArg List.length h
      simp at this
      omega
  | x :: y :: rest => by
      have ih := firstInversion?_eq_none_iff cmp (y :: rest)
      by_cases h : cmp.precedes y x = true
      · simp only [firstInversion?, h, if_true, reduceCtorEq, false_iff]
        intro hall
        exact absurd (hall [] x y rest rfl) (by simp [h])
      · simp only [firstInversion?, h]
        simp only [Bool.false_eq_true, if_false, Option.map_eq_none_iff, ih]
        constructor
        · intro hall left a b right heq
          cases left with
          | nil =>
              simp only [List.nil_append, List.cons.injEq] at heq
              obtain ⟨rfl, rfl, rfl⟩ := heq
              simpa using h
          | cons l left =>
              simp only [List.cons_append, List.cons.injEq] at heq
              exact hall left a b right heq.2
        · intro hall left a b right heq
          exact hall (x :: left) a b right (by simp [heq])

end Comparator
end KWayMerge
