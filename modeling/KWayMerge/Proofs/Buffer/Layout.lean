import KWayMerge.Proofs.Buffer.Selection
import Mathlib.Order.Bounds.Basic

/-!
# The layout that the rounds of a plan leave

The blocks that `r` rounds have made are `blockLen * f.count ^ r` long; call them the blocks of
level `r`. A plan has a round for each level of which a group fits into the whole. Its tail
blocks are found apart from the rounds, as the digits of the whole length to the base of the
fan-in, and yet they are the blocks that the rounds leave: those that some round has made, and
that the next round does not take into a group.

**Results.**
* `exists_levels_eq`: the levels of a plan are all up to the last that fits into the whole.
* `tailBelow_succ`: the tail blocks of a level, and those of the levels below it.
* `mem_placesFrom_tailBelow_iff`: where the tail blocks of a level stand.
* `foldsFrom_eq`: the folds take up the tail blocks one by one, each at its place.
* `make_layout`: all of this of a plan that is made.
-/

namespace KWayMerge
namespace Plan

/-! ### Levels -/

/-- The length of the blocks that `r` rounds have made. -/
def levelLen (blockLen : Nat) (f : FanIn) (r : Nat) : Nat :=
  blockLen * f.count ^ r

section Levels

variable {total blockLen : Nat} {f : FanIn}

@[simp] theorem levelLen_zero (blockLen : Nat) (f : FanIn) : levelLen blockLen f 0 = blockLen := by
  rw [levelLen, Nat.pow_zero, Nat.mul_one]

theorem levelLen_succ (blockLen : Nat) (f : FanIn) (r : Nat) :
    levelLen blockLen f (r + 1) = levelLen blockLen f r * f.count := by
  rw [levelLen, levelLen, Nat.pow_succ, Nat.mul_assoc]

/-- The levels from the second on are the levels of the longer blocks. -/
theorem levelLen_mul_count (blockLen : Nat) (f : FanIn) (r : Nat) :
    levelLen (blockLen * f.count) f r = levelLen blockLen f (r + 1) := by
  rw [levelLen, levelLen, Nat.pow_succ']
  ring

theorem levelLen_pos (hblock : 0 < blockLen) (f : FanIn) (r : Nat) : 0 < levelLen blockLen f r :=
  Nat.mul_pos hblock (Nat.pow_pos (Nat.zero_lt_two.trans_le f.two_le_count))

theorem strictMono_levelLen (hblock : 0 < blockLen) (f : FanIn) :
    StrictMono (levelLen blockLen f) := by
  refine strictMono_nat_of_lt_succ ?_
  intro r
  have hpos : 0 < levelLen blockLen f r := levelLen_pos hblock f r
  have htwo : levelLen blockLen f r * 2 ≤ levelLen blockLen f r * f.count :=
    Nat.mul_le_mul_left _ f.two_le_count
  rw [levelLen_succ]
  omega

/-- **The levels of a plan are all up to the last that fits into the whole.** -/
theorem exists_levels_eq (hblock : 0 < blockLen) (total : Nat) (f : FanIn) :
    ∃ last,
      IsGreatest {r | r = 0 ∨ levelLen blockLen f r ≤ total} last ∧
      levels total f blockLen = (List.range (last + 1)).map (levelLen blockLen f) := by
  induction blockLen using levels.induct total f with
  | case1 blockLen h ih =>
      obtain ⟨last, ⟨hlast, hgreatest⟩, hlevels⟩ := ih (f.mul_count_pos hblock)
      refine ⟨last + 1, ⟨?_, ?_⟩, ?_⟩
      · right
        rw [← levelLen_mul_count]
        rcases hlast with rfl | hlast
        · rw [levelLen_zero]
          exact h.2
        · exact hlast
      · rintro r (rfl | hr)
        · exact Nat.zero_le _
        · cases r with
          | zero => exact Nat.zero_le _
          | succ r =>
              rw [← levelLen_mul_count] at hr
              exact Nat.succ_le_succ (hgreatest (Or.inr hr))
      · rw [levels_cons, if_pos h, hlevels, List.range_succ_eq_map (n := last + 1),
          List.map_cons, List.map_map, levelLen_zero]
        congr 1
        refine List.map_congr_left ?_
        intro r _
        exact levelLen_mul_count blockLen f r
  | case2 blockLen h =>
      refine ⟨0, ⟨Or.inl rfl, ?_⟩, ?_⟩
      · rintro r (rfl | hr)
        · exact Nat.le_refl 0
        · by_contra hpos
          have hle : levelLen blockLen f 1 ≤ levelLen blockLen f r :=
            (strictMono_levelLen hblock f).monotone (by omega)
          rw [levelLen_succ, levelLen_zero] at hle
          exact h ⟨hblock, hle.trans hr⟩
      · rw [levels_cons, if_neg h]
        simp

/-- No block of a level above the last fits into the whole. -/
theorem lt_levelLen_of_isGreatest {last r : Nat}
    (hlast : IsGreatest {r | r = 0 ∨ levelLen blockLen f r ≤ total} last) (hr : last < r) :
    total < levelLen blockLen f r := by
  by_contra hle
  have := hlast.2 (Or.inr (Nat.le_of_not_lt hle))
  omega

/-- Of a level below the last a group fits into the whole. -/
theorem div_levelLen_succ_pos (hblock : 0 < blockLen) {last r : Nat}
    (hlast : IsGreatest {r | r = 0 ∨ levelLen blockLen f r ≤ total} last) (hr : r < last) :
    0 < total / levelLen blockLen f (r + 1) := by
  have hfits : levelLen blockLen f last ≤ total := hlast.1.resolve_left (by omega)
  have hle : levelLen blockLen f (r + 1) ≤ levelLen blockLen f last :=
    (strictMono_levelLen hblock f).monotone hr
  exact Nat.div_pos (hle.trans hfits) (levelLen_pos hblock f (r + 1))

/-- The rounds of a plan, one for each level but the last. -/
theorem roundsOf_eq (total k : Nat) (f : FanIn) (blockLen last : Nat) :
    roundsOf total k f ((List.range (last + 1)).map (levelLen blockLen f)) =
      (List.range last).map fun r => roundOf total k f r (levelLen blockLen f r) := by
  rw [roundsOf, List.range_succ, List.map_append, List.map_singleton, List.dropLast_concat]
  refine List.ext_getElem (by simp) ?_
  intro i hi hi'
  simp

theorem rounds_ofBlocks {last : Nat} (k : Nat)
    (hlevels : levels total f blockLen = (List.range (last + 1)).map (levelLen blockLen f)) :
    (ofBlocks total blockLen k f).rounds =
      (List.range last).map fun r => roundOf total k f r (levelLen blockLen f r) := by
  rw [ofBlocks, hlevels, roundsOf_eq]

end Levels

/-! ### Tail blocks -/

/-- The tail blocks of the levels below `n`, which cover what blocks of level `n` leave over. -/
def tailBelow (total blockLen : Nat) (f : FanIn) (n : Nat) : List Nat :=
  tailOf ((List.range n).map (levelLen blockLen f)).reverse (total % levelLen blockLen f n)

section Tail

variable {total blockLen : Nat} {f : FanIn}

theorem tailBelow_zero (total blockLen : Nat) (f : FanIn) :
    tailBelow total blockLen f 0 =
      if total % blockLen = 0 then [] else [total % blockLen] := by
  rw [tailBelow, levelLen_zero]
  rfl

/-- **The tail blocks of a level come before those of the levels below it.** -/
theorem tailBelow_succ (total blockLen : Nat) (f : FanIn) (n : Nat) :
    tailBelow total blockLen f (n + 1) =
      List.replicate (total % levelLen blockLen f (n + 1) / levelLen blockLen f n)
        (levelLen blockLen f n) ++ tailBelow total blockLen f n := by
  rw [tailBelow, List.range_succ, List.map_append, List.map_singleton, List.reverse_append,
    List.reverse_singleton, List.singleton_append, tailOf, tailBelow]
  congr 2
  rw [levelLen_succ, Nat.mod_mul_right_mod]

theorem leftover_eq_tailBelow {last : Nat}
    (hlast : IsGreatest {r | r = 0 ∨ levelLen blockLen f r ≤ total} last)
    (hlevels : levels total f blockLen = (List.range (last + 1)).map (levelLen blockLen f)) :
    leftover total blockLen f = tailBelow total blockLen f (last + 1) := by
  rw [leftover, hlevels, tailBelow,
    Nat.mod_eq_of_lt (lt_levelLen_of_isGreatest hlast (Nat.lt_succ_self last))]

/-- As many blocks of a level are left as make up no group. -/
theorem mod_levelLen_div_lt (hblock : 0 < blockLen) (total : Nat) (f : FanIn) (n : Nat) :
    total % levelLen blockLen f (n + 1) / levelLen blockLen f n < f.count := by
  rw [Nat.div_lt_iff_lt_mul (levelLen_pos hblock f n), Nat.mul_comm, ← levelLen_succ]
  exact Nat.mod_lt _ (levelLen_pos hblock f (n + 1))

theorem lt_of_mem_tailBelow (hblock : 0 < blockLen) {n len : Nat}
    (h : len ∈ tailBelow total blockLen f n) : len < levelLen blockLen f n := by
  induction n with
  | zero =>
      rw [tailBelow_zero] at h
      split at h
      · simp at h
      · rw [List.mem_singleton] at h
        rw [h, levelLen_zero]
        exact Nat.mod_lt _ hblock
  | succ n ih =>
      have hlt : levelLen blockLen f n < levelLen blockLen f (n + 1) :=
        strictMono_levelLen hblock f (Nat.lt_succ_self n)
      rw [tailBelow_succ, List.mem_append] at h
      rcases h with h | h
      · rw [List.eq_of_mem_replicate h]
        exact hlt
      · exact (ih h).trans hlt

/-- The tail blocks do not get longer from front to back. -/
theorem pairwise_tailBelow (hblock : 0 < blockLen) (total : Nat) (f : FanIn) (n : Nat) :
    (tailBelow total blockLen f n).Pairwise (· ≥ ·) := by
  induction n with
  | zero =>
      rw [tailBelow_zero]
      split
      · exact List.Pairwise.nil
      · exact List.pairwise_singleton _ _
  | succ n ih =>
      rw [tailBelow_succ, List.pairwise_append]
      refine ⟨List.pairwise_replicate.2 (Or.inr (Nat.le_refl _)), ih, ?_⟩
      intro long hlong short hshort
      rw [List.eq_of_mem_replicate hlong]
      exact Nat.le_of_lt (lt_of_mem_tailBelow hblock hshort)

/-- Of no level is a whole group left. -/
theorem count_tailBelow_lt (hblock : 0 < blockLen) (total : Nat) (f : FanIn) (n r : Nat) :
    (tailBelow total blockLen f n).count (levelLen blockLen f r) < f.count := by
  have hcount : 0 < f.count := Nat.zero_lt_two.trans_le f.two_le_count
  induction n with
  | zero =>
      have habsent : levelLen blockLen f r ∉ tailBelow total blockLen f 0 := by
        intro hmem
        have hlt := lt_of_mem_tailBelow hblock hmem
        have hle : levelLen blockLen f 0 ≤ levelLen blockLen f r :=
          (strictMono_levelLen hblock f).monotone (Nat.zero_le r)
        omega
      rw [List.count_eq_zero_of_not_mem habsent]
      exact hcount
  | succ n ih =>
      rw [tailBelow_succ, List.count_append, List.count_replicate]
      by_cases hr : r = n
      · subst hr
        have habsent : levelLen blockLen f r ∉ tailBelow total blockLen f r := by
          intro hmem
          exact Nat.lt_irrefl _ (lt_of_mem_tailBelow hblock hmem)
        rw [List.count_eq_zero_of_not_mem habsent]
        simpa using mod_levelLen_div_lt hblock total f r
      · have hne : levelLen blockLen f n ≠ levelLen blockLen f r := fun h =>
          hr ((strictMono_levelLen hblock f).injective h).symm
        simpa [hne] using ih

/-- All tail blocks are of a level, except perhaps the last, which is shorter than all levels. -/
theorem exists_tailBelow_eq (hblock : 0 < blockLen) (total : Nat) (f : FanIn) (n : Nat) :
    ∃ full short,
      tailBelow total blockLen f n = full ++ short ∧
      (∀ len ∈ full, ∃ r < n, len = levelLen blockLen f r) ∧
      short.length ≤ 1 ∧
      ∀ len ∈ short, len < blockLen := by
  induction n with
  | zero =>
      refine ⟨[], tailBelow total blockLen f 0, rfl, by simp, ?_, ?_⟩
      · rw [tailBelow_zero]
        split
        · exact Nat.zero_le 1
        · exact Nat.le_refl 1
      · intro len hlen
        have hlt := lt_of_mem_tailBelow hblock hlen
        rwa [levelLen_zero] at hlt
  | succ n ih =>
      obtain ⟨full, short, htail, hfull, hshort, hless⟩ := ih
      refine ⟨List.replicate (total % levelLen blockLen f (n + 1) / levelLen blockLen f n)
        (levelLen blockLen f n) ++ full, short, ?_, ?_, hshort, hless⟩
      · rw [tailBelow_succ, htail, List.append_assoc]
      · intro len hlen
        rcases List.mem_append.1 hlen with hlen | hlen
        · exact ⟨n, Nat.lt_succ_self n, List.eq_of_mem_replicate hlen⟩
        · obtain ⟨r, hr, hlevel⟩ := hfull len hlen
          exact ⟨r, hr.trans (Nat.lt_succ_self n), hlevel⟩

end Tail

/-! ### Where the tail blocks stand -/

/-- A block in a row of blocks: where it starts, and how long it is. -/
structure BlockPlace where
  offset : Nat
  length : Nat
deriving DecidableEq, Repr

/-- The places of blocks of these lengths in a row, the first of which starts at `start`. -/
def placesFrom : (start : Nat) → List Nat → List BlockPlace
  | _, [] => []
  | start, len :: lens => ⟨start, len⟩ :: placesFrom (start + len) lens

section Places

variable {total blockLen : Nat} {f : FanIn}

theorem placesFrom_append (start : Nat) (left right : List Nat) :
    placesFrom start (left ++ right) =
      placesFrom start left ++ placesFrom (start + sumCounts left) right := by
  induction left generalizing start with
  | nil => rfl
  | cons len left ih =>
      rw [List.cons_append, placesFrom, ih, placesFrom, sumCounts_cons, List.cons_append,
        Nat.add_assoc]

theorem length_mem_of_mem_placesFrom {start : Nat} {lens : List Nat} {place : BlockPlace}
    (h : place ∈ placesFrom start lens) : place.length ∈ lens := by
  induction lens generalizing start with
  | nil => simp [placesFrom] at h
  | cons len lens ih =>
      rw [placesFrom, List.mem_cons] at h
      rcases h with rfl | h
      · exact List.mem_cons_self
      · exact List.mem_cons_of_mem _ (ih h)

/-- Blocks of one length stand at a distance of this length. -/
theorem mem_placesFrom_replicate_iff {start times len offset : Nat} :
    ⟨offset, len⟩ ∈ placesFrom start (List.replicate times len) ↔
      ∃ i < times, offset = start + i * len := by
  induction times generalizing start with
  | zero => simp [placesFrom]
  | succ times ih =>
      rw [List.replicate_succ, placesFrom, List.mem_cons, ih]
      constructor
      · rintro (h | ⟨i, hi, h⟩)
        · exact ⟨0, Nat.succ_pos times, by simpa using congrArg BlockPlace.offset h⟩
        · refine ⟨i + 1, Nat.succ_lt_succ hi, ?_⟩
          rw [h, Nat.succ_mul]
          omega
      · rintro ⟨i, hi, h⟩
        cases i with
        | zero =>
            left
            rw [h, Nat.zero_mul, Nat.add_zero]
        | succ i =>
            right
            refine ⟨i, Nat.lt_of_succ_lt_succ hi, ?_⟩
            rw [h, Nat.succ_mul]
            omega

/--
A block of level `r` starts at `offset` that is a base block or has been made by a round, and
that is in none of the groups which the next round takes.
-/
structure LeftAlone (total blockLen : Nat) (f : FanIn) (r offset : Nat) : Prop where
  aligned : levelLen blockLen f r ∣ offset
  made : offset + levelLen blockLen f r ≤
    total / levelLen blockLen f r * levelLen blockLen f r
  ungrouped : total / levelLen blockLen f (r + 1) * levelLen blockLen f (r + 1) ≤ offset

/-- The complete blocks of a level cover what groups of them cover, and those left over. -/
theorem covered_succ (total blockLen : Nat) (f : FanIn) (n : Nat) :
    total / levelLen blockLen f (n + 1) * levelLen blockLen f (n + 1) +
        total % levelLen blockLen f (n + 1) / levelLen blockLen f n * levelLen blockLen f n =
      total / levelLen blockLen f n * levelLen blockLen f n := by
  have hdiv : total / levelLen blockLen f n =
      total / levelLen blockLen f (n + 1) * f.count +
        total % levelLen blockLen f (n + 1) / levelLen blockLen f n := by
    rw [levelLen_succ, ← Nat.div_div_eq_div_mul, Nat.mod_mul_right_div_self, Nat.div_add_mod']
  rw [hdiv, Nat.add_mul, levelLen_succ]
  ring

/-- The blocks of a level in a row, from where groups of them have been made up to. -/
theorem mem_placesFrom_level_iff (hblock : 0 < blockLen) (n : Nat) {offset : Nat} :
    ⟨offset, levelLen blockLen f n⟩ ∈
        placesFrom (total / levelLen blockLen f (n + 1) * levelLen blockLen f (n + 1))
          (List.replicate (total % levelLen blockLen f (n + 1) / levelLen blockLen f n)
            (levelLen blockLen f n)) ↔
      LeftAlone total blockLen f n offset := by
  have hpos : 0 < levelLen blockLen f n := levelLen_pos hblock f n
  have hdvd : levelLen blockLen f n ∣
      total / levelLen blockLen f (n + 1) * levelLen blockLen f (n + 1) := by
    rw [levelLen_succ]
    exact (Dvd.intro _ rfl).mul_left _
  have hcovered := covered_succ total blockLen f n
  rw [mem_placesFrom_replicate_iff]
  constructor
  · rintro ⟨i, hi, rfl⟩
    have hle : (i + 1) * levelLen blockLen f n ≤
        total % levelLen blockLen f (n + 1) / levelLen blockLen f n * levelLen blockLen f n :=
      Nat.mul_le_mul_right _ hi
    rw [Nat.succ_mul] at hle
    exact ⟨hdvd.add (Dvd.intro_left i rfl), by omega, Nat.le_add_right _ _⟩
  · intro h
    have hmade := h.made
    have hungrouped := h.ungrouped
    obtain ⟨i, hi⟩ := Nat.dvd_sub h.aligned hdvd
    rw [Nat.mul_comm (levelLen blockLen f n)] at hi
    refine ⟨i, ?_, by omega⟩
    have hle : (i + 1) * levelLen blockLen f n ≤
        total % levelLen blockLen f (n + 1) / levelLen blockLen f n * levelLen blockLen f n := by
      rw [Nat.succ_mul]
      omega
    exact Nat.le_of_mul_le_mul_right hle hpos

/--
**The tail blocks of a level stand where the rounds have made blocks of it and have not taken
them into groups.**
-/
theorem mem_placesFrom_tailBelow_iff (hblock : 0 < blockLen) {n r : Nat} (hr : r < n)
    {offset : Nat} :
    ⟨offset, levelLen blockLen f r⟩ ∈
        placesFrom (total / levelLen blockLen f n * levelLen blockLen f n)
          (tailBelow total blockLen f n) ↔
      LeftAlone total blockLen f r offset := by
  induction n with
  | zero => omega
  | succ n ih =>
      rw [tailBelow_succ, placesFrom_append, sumCounts_replicate, covered_succ, List.mem_append]
      rcases Nat.lt_succ_iff_lt_or_eq.1 hr with hlt | rfl
      · -- the blocks in front are of a higher level
        have habsent : ⟨offset, levelLen blockLen f r⟩ ∉
            placesFrom (total / levelLen blockLen f (n + 1) * levelLen blockLen f (n + 1))
              (List.replicate (total % levelLen blockLen f (n + 1) / levelLen blockLen f n)
                (levelLen blockLen f n)) := by
          intro hmem
          have heq := List.eq_of_mem_replicate (length_mem_of_mem_placesFrom hmem)
          exact Nat.ne_of_lt (strictMono_levelLen hblock f hlt) heq
        rw [or_iff_right habsent]
        exact ih hlt
      · -- the blocks behind are of lower levels
        have habsent : ⟨offset, levelLen blockLen f r⟩ ∉
            placesFrom (total / levelLen blockLen f r * levelLen blockLen f r)
              (tailBelow total blockLen f r) := by
          intro hmem
          have hlt := lt_of_mem_tailBelow hblock (length_mem_of_mem_placesFrom hmem)
          exact Nat.lt_irrefl _ hlt
        rw [or_iff_left habsent]
        exact mem_placesFrom_level_iff hblock r

end Places

/-! ### Folds -/

/-- The fold of the block at this place, for a selection of `k` elements. -/
def foldAt (k : Nat) (place : BlockPlace) : PlanFold where
  offset := place.offset
  blockLen := place.length
  runLen := min place.length k
  gathered := min place.offset k
  capacity := min (place.offset + place.length) k

/-- **The folds take up the blocks one by one, each at its place.** -/
theorem foldsFrom_eq (k offset : Nat) (lens : List Nat) :
    foldsFrom k offset (min offset k) lens = (placesFrom offset lens).map (foldAt k) := by
  induction lens generalizing offset with
  | nil => rfl
  | cons len lens ih =>
      have hgathered : min (min offset k + min len k) k = min (offset + len) k := by omega
      rw [foldsFrom, hgathered, ih, placesFrom, List.map_cons, foldAt]

theorem foldsOf_eq (k : Nat) (lens : List Nat) :
    foldsOf k lens = (placesFrom 0 lens).tail.map (foldAt k) := by
  cases lens with
  | nil => rfl
  | cons first others => rw [foldsOf, foldsFrom_eq, placesFrom, List.tail_cons, Nat.zero_add]

/-! ### Plans -/

/-- Where the tail blocks of a level stand; of levels above the last there are none. -/
theorem mem_placesFrom_leftover_iff {total blockLen last : Nat} {f : FanIn}
    (hblock : 0 < blockLen)
    (hlast : IsGreatest {r | r = 0 ∨ levelLen blockLen f r ≤ total} last)
    (htail : leftover total blockLen f = tailBelow total blockLen f (last + 1))
    (r offset : Nat) :
    ⟨offset, levelLen blockLen f r⟩ ∈ placesFrom 0 (leftover total blockLen f) ↔
      LeftAlone total blockLen f r offset := by
  have hnone : total / levelLen blockLen f (last + 1) = 0 :=
    Nat.div_eq_of_lt (lt_levelLen_of_isGreatest hlast (Nat.lt_succ_self last))
  rcases Nat.lt_or_ge r (last + 1) with hr | hr
  · rw [htail, ← mem_placesFrom_tailBelow_iff hblock hr, hnone, Nat.zero_mul]
  · have hlt : total < levelLen blockLen f r := lt_levelLen_of_isGreatest hlast hr
    constructor
    · intro hmem
      have hshort : levelLen blockLen f r < levelLen blockLen f (last + 1) := by
        rw [htail] at hmem
        exact lt_of_mem_tailBelow hblock (length_mem_of_mem_placesFrom hmem)
      exact absurd ((strictMono_levelLen hblock f).monotone hr) (Nat.not_le_of_lt hshort)
    · intro h
      have hmade := h.made
      rw [Nat.div_eq_of_lt hlt] at hmade
      omega

/--
**The tail blocks of a plan are the layout that its rounds leave.** There is a round for each
level but the last that fits into the whole, and each has a group to merge. The tail blocks do
not get longer, cover the whole, and make up no group; at most the last is shorter than a base
block. One of a level stands just where the rounds have made a block of this level that the next
round leaves alone. Each of them but the first is folded in its turn, where it stands.
-/
theorem make_layout
    (totalLen k : Nat)
    {blockLen : Nat}
    (hblock : 1 ≤ blockLen)
    (f : FanIn) :
    ∃ plan last,
      make totalLen blockLen k f = .ok plan ∧
      plan.totalLen = totalLen ∧
      plan.k = min k totalLen ∧
      IsGreatest {r | r = 0 ∨ levelLen blockLen f r ≤ totalLen} last ∧
      plan.rounds = (List.range last).map (fun r =>
        { index := r
          blockLen := levelLen blockLen f r
          mergedLen := levelLen blockLen f (r + 1)
          groups := totalLen / levelLen blockLen f (r + 1)
          runLen := min (levelLen blockLen f r) (min k totalLen)
          capacity := min (levelLen blockLen f (r + 1)) (min k totalLen) }) ∧
      (∀ round ∈ plan.rounds, 1 ≤ round.groups) ∧
      plan.tailBlocks.Pairwise (· ≥ ·) ∧
      sumCounts plan.tailBlocks = totalLen ∧
      (∀ r, plan.tailBlocks.count (levelLen blockLen f r) ≤ f.count - 1) ∧
      (∃ full short, plan.tailBlocks = full ++ short ∧
        (∀ len ∈ full, ∃ r ≤ last, len = levelLen blockLen f r) ∧
        short.length ≤ 1 ∧ ∀ len ∈ short, len < blockLen) ∧
      (∀ r offset,
        ⟨offset, levelLen blockLen f r⟩ ∈ placesFrom 0 plan.tailBlocks ↔
          LeftAlone totalLen blockLen f r offset) ∧
      plan.folds = (placesFrom 0 plan.tailBlocks).tail.map (fun place =>
        { offset := place.offset
          blockLen := place.length
          runLen := min place.length (min k totalLen)
          gathered := min place.offset (min k totalLen)
          capacity := min (place.offset + place.length) (min k totalLen) }) := by
  obtain ⟨last, hlast, hlevels⟩ := exists_levels_eq hblock totalLen f
  have htail : leftover totalLen blockLen f = tailBelow totalLen blockLen f (last + 1) :=
    leftover_eq_tailBelow hlast hlevels
  have hrounds : (ofBlocks totalLen blockLen (min k totalLen) f).rounds =
      (List.range last).map fun r =>
        roundOf totalLen (min k totalLen) f r (levelLen blockLen f r) := by
    rw [ofBlocks, hlevels, roundsOf_eq]
  refine ⟨_, last, make_eq_ok hblock totalLen k f, rfl, rfl, hlast, ?_, ?_, ?_, ?_, ?_, ?_, ?_,
    foldsOf_eq _ _⟩
  · rw [hrounds]
    refine List.map_congr_left ?_
    intro r _
    rw [roundOf, ← levelLen_succ]
  · rw [hrounds]
    intro round hround
    obtain ⟨r, hr, rfl⟩ := List.mem_map.1 hround
    rw [roundOf, ← levelLen_succ]
    exact div_levelLen_succ_pos hblock hlast (List.mem_range.1 hr)
  · rw [ofBlocks, htail]
    exact pairwise_tailBelow hblock totalLen f (last + 1)
  · exact sumCounts_tailOf _ _
  · intro r
    rw [ofBlocks, htail]
    exact Nat.le_sub_one_of_lt (count_tailBelow_lt hblock totalLen f (last + 1) r)
  · obtain ⟨full, short, hsplit, hfull, hshort, hless⟩ :=
      exists_tailBelow_eq hblock totalLen f (last + 1)
    refine ⟨full, short, htail.trans hsplit, ?_, hshort, hless⟩
    intro len hlen
    obtain ⟨r, hr, hlevel⟩ := hfull len hlen
    exact ⟨r, Nat.le_of_lt_succ hr, hlevel⟩
  · exact mem_placesFrom_leftover_iff hblock hlast htail

theorem make_layout_with_short_last_block :
    ∃ plan, make 23 3 5 .two = .ok plan ∧
      plan.tailBlocks = [12, 6, 3, 2] ∧
      plan.folds = [⟨12, 6, 5, 5, 5⟩, ⟨18, 3, 3, 5, 5⟩, ⟨21, 2, 2, 5, 5⟩] ∧
      ⟨18, 3⟩ ∈ placesFrom 0 plan.tailBlocks ∧
      LeftAlone 23 3 .two 0 18 := by
  obtain ⟨plan, last, hmake, -, -, -, -, -, -, -, -, -, hplaces, hfolds⟩ :=
    make_layout 23 5 (show 1 ≤ 3 by decide) .two
  have hplan : make 23 3 5 .two = .ok
      ⟨23, 5, [⟨0, 3, 6, 3, 3, 5⟩, ⟨1, 6, 12, 1, 5, 5⟩], [12, 6, 3, 2],
        [⟨12, 6, 5, 5, 5⟩, ⟨18, 3, 3, 5, 5⟩, ⟨21, 2, 2, 5, 5⟩]⟩ := by
    simp [make, levels_cons, roundsOf, roundOf, tailOf, foldsOf, foldsFrom, FanIn.count]
  rw [hplan, Except.ok.injEq] at hmake
  subst hmake
  have hplace : ⟨18, 3⟩ ∈ placesFrom 0 [12, 6, 3, 2] := by decide
  exact ⟨_, hplan, rfl, hfolds, hplace, (hplaces 0 18).1 hplace⟩

end Plan
end KWayMerge
