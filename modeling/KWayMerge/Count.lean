/-!
# Counts

Lengths, offsets and capacities are counts. They are natural numbers here; a program keeps them
in machine words, so the largest word bounds what can be asked for. Where counts that are words are
added up, the sum may be larger than any word. A program either stops there or goes on with the
rest, as it has been made.

**Results.**
* `sumCounts_append`: the sum of counts in a row is the sum of the sums.
* `Overflow.sum?_eq`: a sum that is made word by word is the word for the sum.
-/

namespace KWayMerge

/-- The largest number in a word of 64 bits. -/
def maxWord : Nat := 0xffffffffffffffff

/-- The largest number in half a word. -/
def maxHalfWord : Nat := 0xffffffff

def sumCounts (counts : List Nat) : Nat :=
  counts.foldr (· + ·) 0

@[simp] theorem sumCounts_nil : sumCounts [] = 0 :=
  rfl

@[simp] theorem sumCounts_cons (n : Nat) (counts : List Nat) :
    sumCounts (n :: counts) = n + sumCounts counts :=
  rfl

@[simp] theorem sumCounts_append :
    ∀ left right : List Nat, sumCounts (left ++ right) = sumCounts left + sumCounts right
  | [], right => by simp
  | n :: left, right => by simp [sumCounts_append left right, Nat.add_assoc]

@[simp] theorem sumCounts_replicate :
    ∀ times n : Nat, sumCounts (List.replicate times n) = times * n
  | 0, n => by simp
  | times + 1, n => by
      simp [List.replicate_succ, sumCounts_replicate times n, Nat.succ_mul, Nat.add_comm]

/-- What becomes of a result that is larger than any word. -/
inductive Overflow where
  /-- There is no result. -/
  | stops
  /-- The result is what remains of it in a word. -/
  | wraps
deriving DecidableEq, Repr

namespace Overflow

/-- The word for a result, if there is one. -/
def word? : Overflow → Nat → Option Nat
  | .stops, n => if n ≤ maxWord then some n else none
  | .wraps, n => some (n % (maxWord + 1))

/-- The sum of counts, each of them added to the word for those before. -/
def sum? (o : Overflow) (counts : List Nat) : Option Nat :=
  counts.foldlM (fun total n => o.word? (total + n)) 0

theorem word?_of_le (o : Overflow) {n : Nat} (h : n ≤ maxWord) : o.word? n = some n := by
  cases o with
  | stops => exact if_pos h
  | wraps => exact congrArg some (Nat.mod_eq_of_lt (Nat.lt_succ_of_le h))

/-- It makes no difference whether a number is made a word before another is added to it. -/
theorem bind_word?_add (o : Overflow) (m n : Nat) :
    ((o.word? m).bind fun word => o.word? (word + n)) = o.word? (m + n) := by
  cases o with
  | stops =>
      by_cases hm : m ≤ maxWord
      · rw [word?_of_le .stops hm, Option.bind_some]
      · have hsum : ¬ m + n ≤ maxWord := fun h => hm (Nat.le_trans (Nat.le_add_right m n) h)
        rw [word?, word?, if_neg hm, if_neg hsum, Option.bind_none]
  | wraps => exact congrArg some (Nat.mod_add_mod m (maxWord + 1) n)

theorem bind_word?_foldlM (o : Overflow) (counts : List Nat) (m : Nat) :
    ((o.word? m).bind fun word => counts.foldlM (fun total n => o.word? (total + n)) word) =
      o.word? (m + sumCounts counts) := by
  induction counts generalizing m with
  | nil => exact Option.bind_fun_some (o.word? m)
  | cons n counts ih =>
      rw [sumCounts_cons, ← Nat.add_assoc, ← ih, ← bind_word?_add, Option.bind_assoc]
      rfl

/-- **A sum that is made word by word is the word for the sum.** -/
theorem sum?_eq (o : Overflow) (counts : List Nat) :
    o.sum? counts = o.word? (sumCounts counts) := by
  rw [← Nat.zero_add (sumCounts counts), ← bind_word?_foldlM, word?_of_le o (Nat.zero_le _)]
  rfl

end Overflow
end KWayMerge
