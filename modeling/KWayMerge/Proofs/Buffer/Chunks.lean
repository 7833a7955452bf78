import KWayMerge.Buffer.Chunks
import Mathlib.Tactic

/-!
# Chunks and lists of blocks

A buffer that is given as a list of blocks of one length, and perhaps something behind them, has
these blocks as its chunks. Chunks of chunks are longer chunks.

**Results.**
* `chunks_flatten_append`: blocks of the chunk length are the chunks of what they make up.
* `take_chunks`, `drop_chunks`: the first chunks are the chunks of the front.
* `getElem?_chunks`: where each chunk stands.
* `map_flatten_chunks_chunks`: grouping chunks gives chunks of the longer length.
* `flatten_map_chunks`: cutting chunks gives chunks of the shorter length.
-/

namespace KWayMerge

universe u

variable {α : Type u} {len : Nat}

theorem chunks_append (hlen : 0 < len) {block : List α} (hblock : block.length = len)
    (rest : List α) : chunks len (block ++ rest) = block :: chunks len rest := by
  have hne : block ++ rest ≠ [] := by
    intro h
    have hnil := congrArg List.length h
    rw [List.length_append, hblock, List.length_nil] at hnil
    omega
  rw [chunks_of_ne_nil hlen hne, List.take_left' hblock, List.drop_left' hblock]

theorem chunks_flatten_append (hlen : 0 < len) {blocks : List (List α)}
    (hblocks : ∀ block ∈ blocks, block.length = len) (rest : List α) :
    chunks len (blocks.flatten ++ rest) = blocks ++ chunks len rest := by
  induction blocks with
  | nil => rfl
  | cons block blocks ih =>
      rw [List.forall_mem_cons] at hblocks
      rw [List.flatten_cons, List.append_assoc, chunks_append hlen hblocks.1, ih hblocks.2]
      rfl

theorem chunks_flatten_of_forall (hlen : 0 < len) {blocks : List (List α)}
    (hblocks : ∀ block ∈ blocks, block.length = len) :
    chunks len blocks.flatten = blocks := by
  have h := chunks_flatten_append hlen hblocks []
  rwa [chunks_nil, List.append_nil, List.append_nil] at h

theorem chunks_of_length_le {xs : List α} (hxs : xs ≠ []) (hlen : xs.length ≤ len) :
    chunks len xs = [xs] := by
  have hpos : 0 < xs.length := List.length_pos_iff.2 hxs
  rw [chunks_of_ne_nil (by omega) hxs, List.take_of_length_le hlen, List.drop_of_length_le hlen,
    chunks_nil]

/--
Induction over a buffer by taking chunks from its front.
-/
theorem chunks_induction (hlen : 0 < len) {motive : List α → Prop} (nil : motive [])
    (step : ∀ xs, xs ≠ [] → motive (xs.drop len) → motive xs) (xs : List α) : motive xs := by
  induction hn : xs.length using Nat.strongRecOn generalizing xs with
  | ind n ih =>
    by_cases hxs : xs = []
    · rw [hxs]
      exact nil
    · have hpos : 0 < xs.length := List.length_pos_iff.2 hxs
      refine step xs hxs (ih _ ?_ _ rfl)
      rw [List.length_drop]
      omega

theorem length_of_mem_chunks (hlen : 0 < len) {xs block : List α} (h : block ∈ chunks len xs) :
    0 < block.length ∧ block.length ≤ len := by
  induction xs using chunks_induction hlen with
  | nil => simp at h
  | step xs hxs ih =>
      rw [chunks_of_ne_nil hlen hxs] at h
      rcases List.mem_cons.1 h with rfl | h
      · have hpos : 0 < xs.length := List.length_pos_iff.2 hxs
        rw [List.length_take]
        omega
      · exact ih h

theorem length_le_of_mem_chunks (hlen : 0 < len) {xs block : List α}
    (h : block ∈ chunks len xs) : block.length ≤ xs.length := by
  rw [← flatten_chunks hlen xs]
  exact (List.sublist_flatten_of_mem h).length_le

/-- The number of chunks is the quotient of the lengths, rounded up. -/
theorem length_chunks (hlen : 0 < len) (xs : List α) :
    (chunks len xs).length = (xs.length + len - 1) / len := by
  induction xs using chunks_induction hlen with
  | nil =>
      simp only [chunks_nil, List.length_nil, Nat.zero_add]
      exact (Nat.div_eq_of_lt (by omega)).symm
  | step xs hxs ih =>
      have hpos : 0 < xs.length := List.length_pos_iff.2 hxs
      rw [chunks_of_ne_nil hlen hxs, List.length_cons, ih, List.length_drop]
      by_cases hshort : xs.length ≤ len
      · rw [Nat.sub_eq_zero_of_le hshort, Nat.div_eq_of_lt (by omega)]
        symm
        rw [Nat.div_eq_iff hlen]
        omega
      · have hsum : xs.length + len - 1 = xs.length - len + len - 1 + len := by omega
        rw [hsum, Nat.add_div_right _ hlen]

theorem chunks_flatten_map_chunks (hlen : 0 < len) {f : List α → List α}
    (hf : ∀ block, (f block).length = block.length) (xs : List α) :
    chunks len ((chunks len xs).map f).flatten = (chunks len xs).map f := by
  induction xs using chunks_induction hlen with
  | nil => simp
  | step xs hxs ih =>
      have hpos : 0 < xs.length := List.length_pos_iff.2 hxs
      rw [chunks_of_ne_nil hlen hxs, List.map_cons, List.flatten_cons]
      by_cases hshort : xs.length ≤ len
      · rw [List.drop_of_length_le hshort, chunks_nil, List.map_nil, List.flatten_nil,
          List.append_nil, chunks_of_length_le ?_ ?_]
        · rw [← List.length_pos_iff, hf, List.length_take]
          omega
        · rw [hf, List.length_take]
          omega
      · rw [chunks_append hlen ?_, ih]
        rw [hf, List.length_take]
        omega

theorem take_chunks (hlen : 0 < len) (n : Nat) (xs : List α) :
    (chunks len xs).take n = chunks len (xs.take (len * n)) := by
  induction n generalizing xs with
  | zero => simp
  | succ n ih =>
      by_cases hxs : xs = []
      · simp [hxs]
      · have hne : xs.take (len * (n + 1)) ≠ [] := by
          simp only [ne_eq, List.take_eq_nil_iff, hxs, or_false, Nat.mul_eq_zero]
          omega
        have hmul : len * (n + 1) = len + len * n := by ring
        rw [chunks_of_ne_nil hlen hxs, List.take_succ_cons, ih, chunks_of_ne_nil hlen hne,
          List.take_take, hmul, List.drop_take, Nat.min_eq_left (by omega), Nat.add_sub_cancel_left]

theorem drop_chunks (hlen : 0 < len) (n : Nat) (xs : List α) :
    (chunks len xs).drop n = chunks len (xs.drop (len * n)) := by
  induction n generalizing xs with
  | zero => simp
  | succ n ih =>
      by_cases hxs : xs = []
      · simp [hxs]
      · have hmul : len * (n + 1) = len + len * n := by ring
        rw [chunks_of_ne_nil hlen hxs, List.drop_succ_cons, ih, List.drop_drop, hmul]

/-- Each chunk stands at a multiple of the chunk length. -/
theorem getElem?_chunks (hlen : 0 < len) (n : Nat) (xs : List α) :
    (chunks len xs)[n]? =
      if len * n < xs.length then some ((xs.drop (len * n)).take len) else none := by
  have hhead : (chunks len xs)[n]? = (chunks len (xs.drop (len * n))).head? := by
    rw [← drop_chunks hlen, List.head?_drop]
  rw [hhead]
  split
  · next hlt =>
      have hne : xs.drop (len * n) ≠ [] := by
        rw [ne_eq, List.drop_eq_nil_iff]
        omega
      rw [chunks_of_ne_nil hlen hne, List.head?_cons]
  · next hge => rw [List.drop_of_length_le (by omega), chunks_nil, List.head?_nil]

/-- All chunks but the last are of the full length. -/
theorem length_of_mem_dropLast_chunks (hlen : 0 < len) {xs block : List α}
    (h : block ∈ (chunks len xs).dropLast) : block.length = len := by
  induction xs using chunks_induction hlen with
  | nil => simp at h
  | step xs hxs ih =>
      rw [chunks_of_ne_nil hlen hxs] at h
      by_cases hrest : xs.drop len = []
      · rw [hrest, chunks_nil, List.dropLast_singleton] at h
        simp at h
      · have hmore : chunks len (xs.drop len) ≠ [] := by
          rw [chunks_of_ne_nil hlen hrest]
          simp
        rw [List.dropLast_cons_of_ne_nil hmore, List.mem_cons] at h
        rcases h with rfl | h
        · rw [List.drop_eq_nil_iff] at hrest
          rw [List.length_take]
          omega
        · exact ih h

/-- **Grouping chunks gives chunks of the longer length.** -/
theorem map_flatten_chunks_chunks (hlen : 0 < len) {n : Nat} (hn : 0 < n) (xs : List α) :
    (chunks n (chunks len xs)).map List.flatten = chunks (len * n) xs := by
  have hmul : 0 < len * n := Nat.mul_pos hlen hn
  induction xs using chunks_induction hmul with
  | nil => simp
  | step xs hxs ih =>
      have hne : chunks len xs ≠ [] := by
        rw [chunks_of_ne_nil hlen hxs]
        simp
      rw [chunks_of_ne_nil hn hne, chunks_of_ne_nil hmul hxs, List.map_cons, take_chunks hlen,
        drop_chunks hlen, flatten_chunks hlen, ih]

theorem chunks_flatten_of_mem_chunks (hlen : 0 < len) {n : Nat} (hn : 0 < n) {xs : List α}
    {group : List (List α)} (h : group ∈ chunks n (chunks len xs)) :
    chunks len group.flatten = group := by
  have hmul : 0 < len * n := Nat.mul_pos hlen hn
  induction xs using chunks_induction hmul with
  | nil => simp at h
  | step xs hxs ih =>
      have hne : chunks len xs ≠ [] := by
        rw [chunks_of_ne_nil hlen hxs]
        simp
      rw [chunks_of_ne_nil hn hne, take_chunks hlen, drop_chunks hlen] at h
      rcases List.mem_cons.1 h with rfl | h
      · rw [flatten_chunks hlen]
      · exact ih h

theorem chunks_map {β : Type u} (hlen : 0 < len) (f : α → β) (xs : List α) :
    chunks len (xs.map f) = (chunks len xs).map (List.map f) := by
  induction xs using chunks_induction hlen with
  | nil => simp
  | step xs hxs ih =>
      have hne : xs.map f ≠ [] := by simpa using hxs
      rw [chunks_of_ne_nil hlen hne, chunks_of_ne_nil hlen hxs, ← List.map_take, ← List.map_drop,
        ih, List.map_cons]

/-- All lengths that hold the whole list cut it alike. -/
theorem chunks_eq_of_length_le {xs : List α} {other : Nat} (hlen : xs.length ≤ len)
    (hother : xs.length ≤ other) : chunks len xs = chunks other xs := by
  by_cases hxs : xs = []
  · rw [hxs, chunks_nil, chunks_nil]
  · rw [chunks_of_length_le hxs hlen, chunks_of_length_le hxs hother]

/-- **Cutting chunks gives chunks of the shorter length**, if it divides the longer one. -/
theorem flatten_map_chunks {blockLen : Nat} (hblock : 0 < blockLen) (hlen : 0 < len)
    {xs : List α} (h : blockLen ∣ len ∨ xs.length ≤ len) :
    ((chunks len xs).map (chunks blockLen)).flatten = chunks blockLen xs := by
  rcases h with ⟨n, rfl⟩ | hshort
  · have hn : 0 < n := Nat.pos_of_mul_pos_left hlen
    rw [← map_flatten_chunks_chunks hblock hn, List.map_map]
    have hcut : (chunks n (chunks blockLen xs)).map (chunks blockLen ∘ List.flatten) =
        chunks n (chunks blockLen xs) := by
      conv => rhs; rw [← List.map_id (chunks n (chunks blockLen xs))]
      exact List.map_congr_left fun group hgroup => chunks_flatten_of_mem_chunks hblock hn hgroup
    rw [hcut, flatten_chunks hn]
  · by_cases hxs : xs = []
    · simp [hxs]
    · rw [chunks_of_length_le hxs hshort, List.map_singleton, List.flatten_singleton]

end KWayMerge
