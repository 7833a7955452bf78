/-!
# Chunks of a buffer

A buffer is seen as adjacent chunks of one length, the last of which may be shorter.

**Results.** `flatten_chunks`: the chunks in a row are the buffer.
-/

namespace KWayMerge

universe u

variable {α : Type u}

/-- Puts the chunks of `xs` behind those `done` already, last first. -/
def chunksOnto (len : Nat) (xs : List α) (done : List (List α)) : List (List α) :=
  if _h : xs.isEmpty ∨ len = 0 then
    done.reverse
  else
    chunksOnto len (xs.drop len) (xs.take len :: done)
termination_by xs.length
decreasing_by
  cases xs with
  | nil => simp at _h
  | cons x xs => simp at _h ⊢; omega

/-- The chunks of length `len`, the last possibly shorter; there are none of length zero. -/
def chunks (len : Nat) (xs : List α) : List (List α) :=
  chunksOnto len xs []

/-- What is done already stays in front. -/
theorem chunksOnto_eq (len : Nat) (xs : List α) (done : List (List α)) :
    chunksOnto len xs done = done.reverse ++ chunks len xs := by
  induction hn : xs.length using Nat.strongRecOn generalizing xs done with
  | ind n ih =>
    rw [chunksOnto.eq_def len xs done, chunks, chunksOnto.eq_def len xs []]
    split
    · simp
    · next h =>
      have hlt : (xs.drop len).length < n := by
        cases xs with
        | nil => simp at h
        | cons x xs => simp at h hn ⊢; omega
      rw [ih _ hlt _ (xs.take len :: done) rfl, ih _ hlt _ [xs.take len] rfl]
      simp

@[simp] theorem chunks_nil (len : Nat) : chunks len ([] : List α) = [] := by
  rw [chunks, chunksOnto]
  simp

/-- The first chunk is taken from the front, and the others are the chunks of the rest. -/
theorem chunks_of_ne_nil {len : Nat} {xs : List α} (hlen : 0 < len) (hxs : xs ≠ []) :
    chunks len xs = xs.take len :: chunks len (xs.drop len) := by
  have h : ¬(xs.isEmpty ∨ len = 0) := by simp [hxs]; omega
  rw [chunks, chunksOnto, dif_neg h, chunksOnto_eq]
  simp

theorem flatten_chunks {len : Nat} (hlen : 0 < len) (xs : List α) :
    (chunks len xs).flatten = xs := by
  induction hn : xs.length using Nat.strongRecOn generalizing xs with
  | ind n ih =>
    by_cases hxs : xs = []
    · simp [hxs]
    · have hpos : 0 < xs.length := List.length_pos_iff.2 hxs
      rw [chunks_of_ne_nil hlen hxs, List.flatten_cons,
        ih _ (by simp only [List.length_drop]; omega) (xs.drop len) rfl, List.take_append_drop]

end KWayMerge
