import KWayMerge.Proofs.Buffer.Layout

/-!
# Plans in machine words

A program makes a plan of words of 64 bits. A product or a sum of words may be too large for a
word, a difference may fall below zero, and a divisor may be zero. None of this happens while a
plan is made, however large the buffer is: each round multiplies the length of the blocks, up to
the whole at most, and all other numbers count parts of the buffer. Only the product that ends the
rounds may be too large for a word, and then it is too large for the buffer.

**Results.**
* `Word.mul?_eq_some_iff` and those below it: arithmetic on words gives a word just when the
  arithmetic on their numbers gives its number.
* `longer?_eq_none_iff`: where the rounds stop.
* `roundsInWords_eq`, `tailInWords_eq`, `foldsFromInWords_eq`: what the three loops find.
* `makeInWords_eq`: a plan in words is the plan.
* `make_in_words`: all of this, and how many rounds and tail blocks there are.
-/

namespace KWayMerge

/-! ### Words -/

namespace Word

/-- The product of two words, if it is a word. -/
def mul? (a b : UInt64) : Option UInt64 :=
  if a.toNat * b.toNat ≤ maxWord then some (a * b) else none

/-- The sum of two words, if it is a word. -/
def add? (a b : UInt64) : Option UInt64 :=
  if a.toNat + b.toNat ≤ maxWord then some (a + b) else none

/-- The difference of two words, if it is not below zero. -/
def sub? (a b : UInt64) : Option UInt64 :=
  if b ≤ a then some (a - b) else none

/-- The quotient of two words, unless the divisor is zero. -/
def div? (a b : UInt64) : Option UInt64 :=
  if b = 0 then none else some (a / b)

variable {a b c : UInt64}

theorem toNat_le_maxWord (a : UInt64) : a.toNat ≤ maxWord :=
  Nat.le_of_lt_succ a.toNat_lt

theorem exists_toNat_eq {n : Nat} (h : n ≤ maxWord) : ∃ a : UInt64, a.toNat = n :=
  ⟨UInt64.ofNat n, UInt64.toNat_ofNat_of_lt' (Nat.lt_succ_of_le h)⟩

/-- Of an operation that goes by the numbers, the result is the word with the right number. -/
theorem ite_eq_some_iff {n : Nat} {result : UInt64} (hresult : n ≤ maxWord → result.toNat = n) :
    (if n ≤ maxWord then some result else none) = some c ↔ c.toNat = n := by
  constructor
  · intro h
    split at h
    · next hle =>
        cases h
        exact hresult hle
    · cases h
  · intro h
    have hle : n ≤ maxWord := h ▸ toNat_le_maxWord c
    rw [if_pos hle, Option.some_inj, ← UInt64.toNat_inj, hresult hle, h]

theorem mul?_eq_some_iff : mul? a b = some c ↔ c.toNat = a.toNat * b.toNat := by
  refine ite_eq_some_iff ?_
  intro hle
  rw [UInt64.toNat_mul]
  exact Nat.mod_eq_of_lt (Nat.lt_succ_of_le hle)

theorem add?_eq_some_iff : add? a b = some c ↔ c.toNat = a.toNat + b.toNat := by
  refine ite_eq_some_iff ?_
  intro hle
  rw [UInt64.toNat_add]
  exact Nat.mod_eq_of_lt (Nat.lt_succ_of_le hle)

theorem sub?_eq_some_iff : sub? a b = some c ↔ c.toNat + b.toNat = a.toNat := by
  rw [sub?]
  split
  · next h =>
      have hle : b.toNat ≤ a.toNat := UInt64.le_iff_toNat_le.1 h
      rw [Option.some_inj, ← UInt64.toNat_inj, UInt64.toNat_sub_of_le a b h]
      omega
  · next h =>
      rw [UInt64.le_iff_toNat_le] at h
      simp only [reduceCtorEq, false_iff]
      omega

theorem div?_eq_some_iff :
    div? a b = some c ↔ 0 < b.toNat ∧ c.toNat = a.toNat / b.toNat := by
  have hzero : b = 0 ↔ b.toNat = 0 := by
    rw [← UInt64.toNat_inj]
    rfl
  rw [div?]
  split
  · next h => simp [hzero.1 h]
  · next h =>
      rw [hzero] at h
      rw [Option.some_inj, ← UInt64.toNat_inj, UInt64.toNat_div]
      simp only [Nat.pos_of_ne_zero h, true_and]
      exact eq_comm

/-- A product that is no word exceeds all words. -/
theorem lt_mul_of_mul?_eq_none (h : mul? a b = none) : c.toNat < a.toNat * b.toNat := by
  rw [mul?] at h
  split at h
  · cases h
  · next hlt => exact (toNat_le_maxWord c).trans_lt (Nat.lt_of_not_le hlt)

end Word

/-- The number of a fan-in as a word. -/
def FanIn.word (f : FanIn) : UInt64 :=
  UInt64.ofNat f.count

@[simp] theorem FanIn.toNat_word (f : FanIn) : f.word.toNat = f.count := by
  cases f with
  | two => rfl
  | three => rfl
  | four => rfl

namespace Plan

/-! ### The loops of a plan -/

/--
The length of the blocks that a round would make of blocks of `len`; none if it is no word or more
than the whole.
-/
def longer? (total : UInt64) (f : FanIn) (len : UInt64) : Option UInt64 :=
  (Word.mul? len f.word).filter fun merged => merged ≤ total

theorem longer?_eq_some_iff {total len merged : UInt64} {f : FanIn} :
    longer? total f len = some merged ↔
      merged.toNat = len.toNat * f.count ∧ len.toNat * f.count ≤ total.toNat := by
  rw [longer?, Option.filter_eq_some_iff, Word.mul?_eq_some_iff, FanIn.toNat_word,
    decide_eq_true_eq, UInt64.le_iff_toNat_le]
  constructor
  · rintro ⟨hmerged, hle⟩
    exact ⟨hmerged, hmerged ▸ hle⟩
  · rintro ⟨hmerged, hle⟩
    exact ⟨hmerged, hmerged ▸ hle⟩

/-- A round that can count its groups makes longer blocks. -/
theorem sub_lt_sub_of_longer? {total len merged groups : UInt64} {f : FanIn}
    (hlonger : longer? total f len = some merged) (hgroups : Word.div? total merged = some groups) :
    total.toNat - merged.toNat < total.toNat - len.toNat := by
  obtain ⟨hmerged, hle⟩ := longer?_eq_some_iff.1 hlonger
  have hpos : 0 < merged.toNat := (Word.div?_eq_some_iff.1 hgroups).1
  have htwo : len.toNat * 2 ≤ len.toNat * f.count := Nat.mul_le_mul_left _ f.two_le_count
  omega

/--
Puts the rounds from blocks of `len` on behind those found already, and the lengths of the blocks
that they make behind `lens`.
-/
def roundsInWords (total k : UInt64) (f : FanIn) (len : UInt64) (rounds : List PlanRound)
    (lens : List UInt64) : Option (List PlanRound × List UInt64) :=
  match _hlonger : longer? total f len with
  | none => some (rounds, lens)
  | some merged =>
      match _hgroups : Word.div? total merged with
      | none => none
      | some groups =>
          let round : PlanRound := {
            index := rounds.length
            blockLen := len.toNat
            mergedLen := merged.toNat
            groups := groups.toNat
            runLen := (min len k).toNat
            capacity := (min merged k).toNat
          }
          roundsInWords total k f merged (rounds ++ [round]) (lens ++ [merged])
termination_by total.toNat - len.toNat
decreasing_by exact sub_lt_sub_of_longer? _hlonger _hgroups

/-- Puts the blocks that cover `rest`, of the given lengths and a last one, behind `tail`. -/
def tailInWords : (lens : List UInt64) → (rest : UInt64) → (tail : List UInt64) →
    Option (List UInt64)
  | [], rest, tail => some (if 0 < rest then tail ++ [rest] else tail)
  | len :: lens, rest, tail => do
      let count ← Word.div? rest len
      let covered ← Word.mul? count len
      let rest ← Word.sub? rest covered
      tailInWords lens rest (tail ++ List.replicate count.toNat len)

/-- Puts the folds of the blocks that start at `offset` behind those found already. -/
def foldsFromInWords (k : UInt64) : (lens : List UInt64) → (offset gathered : UInt64) →
    (folds : List PlanFold) → Option (List PlanFold)
  | [], _, _, folds => some folds
  | len :: lens, offset, gathered, folds => do
      let runLen := min len k
      let both ← Word.add? gathered runLen
      let capacity := min both k
      let fold : PlanFold := {
        offset := offset.toNat
        blockLen := len.toNat
        runLen := runLen.toNat
        gathered := gathered.toNat
        capacity := capacity.toNat
      }
      let next ← Word.add? offset len
      foldsFromInWords k lens next capacity (folds ++ [fold])

/-- The folds of all blocks but the first. -/
def foldsOfInWords (k : UInt64) : List UInt64 → Option (List PlanFold)
  | [] => some []
  | first :: others => foldsFromInWords k others first (min first k) []

/-- A plan made of words; none if arithmetic on words fails on the way. -/
def makeInWords (total blockLen k : UInt64) (f : FanIn) : Option (Except Fault Plan) :=
  if blockLen = 0 then
    some (.error .emptyBlocks)
  else do
    let selected := min k total
    let (rounds, lens) ← roundsInWords total selected f blockLen [] [blockLen]
    let tail ← tailInWords lens.reverse total []
    let folds ← foldsOfInWords selected tail
    some (.ok {
      totalLen := total.toNat
      k := selected.toNat
      rounds := rounds
      tailBlocks := tail.map UInt64.toNat
      folds := folds
    })

section Loops

variable {total k len merged : UInt64} {f : FanIn}

/-- **The rounds stop where the product exceeds the whole, be it a word or not.** -/
theorem longer?_eq_none_iff :
    longer? total f len = none ↔ total.toNat < len.toNat * f.count := by
  constructor
  · intro h
    by_contra hle
    rw [Nat.not_lt] at hle
    obtain ⟨merged, hmerged⟩ := Word.exists_toNat_eq (hle.trans (Word.toNat_le_maxWord total))
    rw [longer?_eq_some_iff.2 ⟨hmerged, hle⟩] at h
    cases h
  · intro hlt
    cases h : longer? total f len with
    | none => rfl
    | some merged =>
        have hle := (longer?_eq_some_iff.1 h).2
        omega

theorem roundsInWords_of_none (h : longer? total f len = none) (rounds : List PlanRound)
    (lens : List UInt64) : roundsInWords total k f len rounds lens = some (rounds, lens) := by
  rw [roundsInWords]
  split
  · rfl
  · next merged hmerged =>
      rw [h] at hmerged
      cases hmerged

theorem roundsInWords_of_some (hlen : 0 < len.toNat) (h : longer? total f len = some merged)
    (rounds : List PlanRound) (lens : List UInt64) :
    roundsInWords total k f len rounds lens =
      roundsInWords total k f merged
        (rounds ++ [roundOf total.toNat k.toNat f rounds.length len.toNat]) (lens ++ [merged]) := by
  obtain ⟨hmerged, -⟩ := longer?_eq_some_iff.1 h
  have hpos : 0 < merged.toNat := hmerged ▸ f.mul_count_pos hlen
  have hgroups : Word.div? total merged = some (total / merged) :=
    Word.div?_eq_some_iff.2 ⟨hpos, UInt64.toNat_div total merged⟩
  rw [roundsInWords]
  split
  · next hnone =>
      rw [h] at hnone
      cases hnone
  · next other hother =>
      rw [h, Option.some_inj] at hother
      subst hother
      split
      · next hnone =>
          rw [hgroups] at hnone
          cases hnone
      · next groups hdiv =>
          rw [hgroups, Option.some_inj] at hdiv
          subst hdiv
          rw [roundOf, ← hmerged, ← UInt64.toNat_div, ← UInt64.toNat_min,
            ← UInt64.toNat_min]

/-- **The rounds in words are those of the plan, and so are the levels.** -/
theorem roundsInWords_eq (total k : UInt64) (f : FanIn) (hlen : 0 < len.toNat)
    (rounds : List PlanRound) (lens : List UInt64) :
    ∃ longer : List UInt64,
      levels total.toNat f len.toNat = len.toNat :: longer.map UInt64.toNat ∧
      roundsInWords total k f len rounds lens =
        some (rounds ++ (levels total.toNat f len.toNat).dropLast.mapIdx fun i n =>
          roundOf total.toNat k.toNat f (rounds.length + i) n, lens ++ longer) := by
  -- the levels are computed on the number of the word, so the induction is on that number
  induction hn : len.toNat using levels.induct total.toNat f generalizing len rounds lens with
  | case1 n h ih =>
      subst hn
      have hlevels : levels total.toNat f len.toNat =
          len.toNat :: levels total.toNat f (len.toNat * f.count) := by
        rw [levels_cons, if_pos h]
      obtain ⟨merged, hmerged⟩ :=
        Word.exists_toNat_eq (h.2.trans (Word.toNat_le_maxWord total))
      obtain ⟨longer, hlonger, hrun⟩ :=
        ih (hmerged ▸ f.mul_count_pos hlen)
          (rounds ++ [roundOf total.toNat k.toNat f rounds.length len.toNat]) (lens ++ [merged])
          hmerged
      refine ⟨merged :: longer, ?_, ?_⟩
      · rw [hlevels, hlonger, List.map_cons, hmerged]
      · rw [roundsInWords_of_some hlen (longer?_eq_some_iff.2 ⟨hmerged, h.2⟩), hrun, hlevels,
          List.dropLast_cons_of_ne_nil (levels_ne_nil _ _ _), List.mapIdx_cons]
        simp [Nat.add_assoc, Nat.add_comm 1]
  | case2 n h =>
      subst hn
      have hlevels : levels total.toNat f len.toNat = [len.toNat] := by
        rw [levels_cons, if_neg h]
      have hnone : longer? total f len = none := by
        rw [longer?_eq_none_iff]
        exact Nat.lt_of_not_le fun hle => h ⟨hlen, hle⟩
      refine ⟨[], hlevels, ?_⟩
      rw [roundsInWords_of_none hnone, hlevels]
      simp

/-- All rounds of a plan, and the block lengths of all its levels. -/
theorem exists_roundsInWords_eq (total k : UInt64) (f : FanIn) (hlen : 0 < len.toNat) :
    ∃ lens : List UInt64,
      lens.map UInt64.toNat = levels total.toNat f len.toNat ∧
      (∀ n ∈ lens, 0 < n.toNat) ∧
      roundsInWords total k f len [] [len] =
        some (roundsOf total.toNat k.toNat f (levels total.toNat f len.toNat), lens) := by
  obtain ⟨longer, hlevels, hrun⟩ := roundsInWords_eq total k f hlen [] [len]
  have hlens : (len :: longer).map UInt64.toNat = levels total.toNat f len.toNat := by
    rw [hlevels, List.map_cons]
  refine ⟨len :: longer, hlens, ?_, ?_⟩
  · intro n hn
    have hmem : n.toNat ∈ (len :: longer).map UInt64.toNat := List.mem_map_of_mem hn
    rw [hlens] at hmem
    exact pos_of_mem_levels hlen n.toNat hmem
  · rw [hrun, roundsOf]
    simp

theorem tailInWords_cons (hlen : 0 < len.toNat) (lens : List UInt64) (rest : UInt64)
    (tail : List UInt64) :
    tailInWords (len :: lens) rest tail =
      tailInWords lens (rest % len) (tail ++ List.replicate (rest / len).toNat len) := by
  have hle : rest.toNat / len.toNat * len.toNat ≤ rest.toNat := Nat.div_mul_le_self _ _
  obtain ⟨covered, hcovered⟩ := Word.exists_toNat_eq (hle.trans (Word.toNat_le_maxWord rest))
  have hcount : Word.div? rest len = some (rest / len) :=
    Word.div?_eq_some_iff.2 ⟨hlen, UInt64.toNat_div rest len⟩
  have hmul : Word.mul? (rest / len) len = some covered := by
    rw [Word.mul?_eq_some_iff, UInt64.toNat_div, hcovered]
  have hsub : Word.sub? rest covered = some (rest % len) := by
    rw [Word.sub?_eq_some_iff, UInt64.toNat_mod, hcovered, Nat.mod_add_div']
  rw [tailInWords, hcount, Option.bind_eq_bind, Option.bind_some, hmul, Option.bind_some, hsub,
    Option.bind_some]

/-- **The tail blocks in words are those of the plan.** -/
theorem tailInWords_eq {lens : List UInt64} (hlens : ∀ len ∈ lens, 0 < len.toNat)
    (rest : UInt64) (tail : List UInt64) :
    ∃ blocks : List UInt64,
      blocks.map UInt64.toNat = tailOf (lens.map UInt64.toNat) rest.toNat ∧
      tailInWords lens rest tail = some (tail ++ blocks) := by
  induction lens generalizing rest tail with
  | nil =>
      have hpos : 0 < rest ↔ 0 < rest.toNat := UInt64.lt_iff_toNat_lt
      by_cases h : rest.toNat = 0
      · refine ⟨[], ?_, ?_⟩
        · simp [tailOf, h]
        · rw [tailInWords, if_neg (by rw [hpos]; omega), List.append_nil]
      · refine ⟨[rest], ?_, ?_⟩
        · simp [tailOf, h]
        · rw [tailInWords, if_pos (hpos.2 (Nat.pos_of_ne_zero h))]
  | cons len lens ih =>
      rw [List.forall_mem_cons] at hlens
      obtain ⟨blocks, hblocks, hrun⟩ :=
        ih hlens.2 (rest % len) (tail ++ List.replicate (rest / len).toNat len)
      refine ⟨List.replicate (rest / len).toNat len ++ blocks, ?_, ?_⟩
      · rw [List.map_append, List.map_replicate, hblocks, UInt64.toNat_div, UInt64.toNat_mod,
          List.map_cons, tailOf]
      · rw [tailInWords_cons hlens.1, hrun, List.append_assoc]

/-- A fold of a block that ends within the words, after no more has been gathered than is there. -/
theorem exists_foldsFromInWords_cons (k len : UInt64) {offset gathered : UInt64}
    (hgathered : gathered.toNat ≤ offset.toNat) (hend : offset.toNat + len.toNat ≤ maxWord)
    (lens : List UInt64) (folds : List PlanFold) :
    ∃ next capacity : UInt64,
      next.toNat = offset.toNat + len.toNat ∧
      capacity.toNat = min (gathered.toNat + min len.toNat k.toNat) k.toNat ∧
      foldsFromInWords k (len :: lens) offset gathered folds =
        foldsFromInWords k lens next capacity
          (folds ++ [⟨offset.toNat, len.toNat, min len.toNat k.toNat, gathered.toNat,
            min (gathered.toNat + min len.toNat k.toNat) k.toNat⟩]) := by
  have hrunLen : (min len k).toNat = min len.toNat k.toNat := UInt64.toNat_min len k
  obtain ⟨both, hboth⟩ :=
    Word.exists_toNat_eq (show gathered.toNat + (min len k).toNat ≤ maxWord by omega)
  obtain ⟨next, hnext⟩ := Word.exists_toNat_eq hend
  have hcapacity : (min both k).toNat =
      min (gathered.toNat + min len.toNat k.toNat) k.toNat := by
    rw [UInt64.toNat_min, hboth, hrunLen]
  refine ⟨next, min both k, hnext, hcapacity, ?_⟩
  rw [foldsFromInWords]
  dsimp only
  rw [Word.add?_eq_some_iff.2 hboth, Option.bind_eq_bind, Option.bind_some,
    Word.add?_eq_some_iff.2 hnext, Option.bind_some, hcapacity, hrunLen]

/--
**The folds in words are those of the plan**, where the blocks end within the words. What has been
gathered is part of what stands before the block, so the sum of both is a word.
-/
theorem foldsFromInWords_eq {offset gathered : UInt64} {lens : List UInt64}
    (hgathered : gathered.toNat ≤ offset.toNat)
    (hend : offset.toNat + sumCounts (lens.map UInt64.toNat) ≤ maxWord) (folds : List PlanFold) :
    foldsFromInWords k lens offset gathered folds =
      some (folds ++
        foldsFrom k.toNat offset.toNat gathered.toNat (lens.map UInt64.toNat)) := by
  induction lens generalizing offset gathered folds with
  | nil => rw [foldsFromInWords, List.map_nil, foldsFrom, List.append_nil]
  | cons len lens ih =>
      rw [List.map_cons, sumCounts_cons] at hend
      obtain ⟨next, capacity, hnext, hcapacity, hrun⟩ :=
        exists_foldsFromInWords_cons k len hgathered (by omega) lens folds
      rw [hrun, ih (by omega) (by omega), List.append_assoc, List.map_cons, foldsFrom, hnext,
        hcapacity]
      rfl

theorem foldsOfInWords_eq {tail : List UInt64}
    (hend : sumCounts (tail.map UInt64.toNat) ≤ maxWord) :
    foldsOfInWords k tail = some (foldsOf k.toNat (tail.map UInt64.toNat)) := by
  cases tail with
  | nil => rfl
  | cons first others =>
      have hgathered : (min first k).toNat = min first.toNat k.toNat := UInt64.toNat_min first k
      rw [List.map_cons, sumCounts_cons] at hend
      rw [foldsOfInWords, foldsFromInWords_eq (by omega) hend, List.nil_append, List.map_cons,
        foldsOf, hgathered]

end Loops

/-- **A plan in words is the plan of the numbers.** -/
theorem makeInWords_eq (total blockLen k : UInt64) (f : FanIn) :
    makeInWords total blockLen k f = some (make total.toNat blockLen.toNat k.toNat f) := by
  rw [makeInWords]
  by_cases hzero : blockLen = 0
  · subst hzero
    rfl
  · have hblock : 0 < blockLen.toNat := by
      rw [Nat.pos_iff_ne_zero]
      exact fun h => hzero (UInt64.toNat_inj.1 h)
    have hselected : (min k total).toNat = min k.toNat total.toNat := UInt64.toNat_min k total
    obtain ⟨lens, hlens, hpos, hrounds⟩ :=
      exists_roundsInWords_eq total (min k total) f hblock
    obtain ⟨tail, htail, hrun⟩ :=
      tailInWords_eq (fun len hlen => hpos len (List.mem_reverse.1 hlen)) total []
    have hleftover : tail.map UInt64.toNat = leftover total.toNat blockLen.toNat f := by
      rw [htail, List.map_reverse, hlens, leftover]
    have hend : sumCounts (tail.map UInt64.toNat) ≤ maxWord := by
      rw [hleftover, leftover, sumCounts_tailOf]
      exact Word.toNat_le_maxWord total
    rw [if_neg hzero]
    simp only [hrounds, hrun, List.nil_append, foldsOfInWords_eq hend, Option.bind_eq_bind,
      Option.bind_some]
    rw [hleftover, hselected, make_eq_ok hblock]
    rfl

/-! ### How large a plan is -/

section Size

variable {total blockLen : Nat} {f : FanIn}

theorem two_pow_le_levelLen (hblock : 0 < blockLen) (f : FanIn) (r : Nat) :
    2 ^ r ≤ levelLen blockLen f r :=
  (Nat.pow_le_pow_left f.two_le_count r).trans (Nat.le_mul_of_pos_left _ hblock)

/-- A whole of fewer than `2 ^ n` elements has fewer than `n` levels above the first. -/
theorem lt_of_lt_two_pow (hblock : 0 < blockLen) {last n : Nat}
    (hlast : IsGreatest {r | r = 0 ∨ levelLen blockLen f r ≤ total} last) (hn : 0 < n)
    (htotal : total < 2 ^ n) : last < n := by
  rcases hlast.1 with rfl | hle
  · exact hn
  · have hlt : 2 ^ last < 2 ^ n :=
      (two_pow_le_levelLen hblock f last).trans_lt (hle.trans_lt htotal)
    exact (Nat.pow_lt_pow_iff_right Nat.one_lt_two).1 hlt

/-- Of each level less than a group is left, and at most one block is shorter than all levels. -/
theorem length_tailBelow_le (hblock : 0 < blockLen) (total : Nat) (f : FanIn) (n : Nat) :
    (tailBelow total blockLen f n).length ≤ (f.count - 1) * n + 1 := by
  induction n with
  | zero =>
      rw [tailBelow_zero]
      split
      · exact Nat.zero_le _
      · exact Nat.le_refl _
  | succ n ih =>
      have hlt := mod_levelLen_div_lt hblock total f n
      rw [tailBelow_succ, List.length_append, List.length_replicate, Nat.mul_succ]
      omega

/-- **How many rounds and tail blocks a plan has.** -/
theorem length_rounds_and_tailBlocks (hblock : 0 < blockLen) (k : Nat) (f : FanIn) {n : Nat}
    (htotal : total < 2 ^ (n + 1)) :
    (ofBlocks total blockLen k f).rounds.length ≤ n ∧
    (ofBlocks total blockLen k f).tailBlocks.length ≤
      (f.count - 1) * ((ofBlocks total blockLen k f).rounds.length + 1) + 1 := by
  obtain ⟨last, hlast, hlevels⟩ := exists_levels_eq hblock total f
  have hrounds : (ofBlocks total blockLen k f).rounds.length = last := by
    rw [rounds_ofBlocks k hlevels, List.length_map, List.length_range]
  rw [hrounds]
  constructor
  · exact Nat.le_of_lt_succ (lt_of_lt_two_pow hblock hlast n.succ_pos htotal)
  · rw [ofBlocks, leftover_eq_tailBelow hlast hlevels]
    exact length_tailBelow_le hblock total f (last + 1)

end Size

/--
**A plan for any number of elements that is a word can be made in words.** All loops end, and no
number on the way is too large for a word or below zero. The rounds stop where a group would be
longer than the whole, and a product that is no word is longer than the whole. Each round at least
doubles the blocks, so there are fewer rounds than a word has bits; of each level less than a group
is left.
-/
theorem make_in_words
    (total k : UInt64)
    {blockLen : UInt64}
    (hblock : 1 ≤ blockLen)
    (f : FanIn) :
    ∃ plan,
      makeInWords total blockLen k f = some (.ok plan) ∧
      make total.toNat blockLen.toNat k.toNat f = .ok plan ∧
      (∀ len : UInt64, longer? total f len = none ↔ total.toNat < len.toNat * f.count) ∧
      (∀ len : UInt64, Word.mul? len f.word = none → total.toNat < len.toNat * f.count) ∧
      plan.rounds.length ≤ 63 ∧
      plan.tailBlocks.length ≤ (f.count - 1) * (plan.rounds.length + 1) + 1 := by
  have hpos : 0 < blockLen.toNat := UInt64.le_iff_toNat_le.1 hblock
  have hmake := make_eq_ok hpos total.toNat k.toNat f
  obtain ⟨hrounds, htail⟩ := length_rounds_and_tailBlocks hpos (min k.toNat total.toNat) f
    (n := 63) total.toNat_lt
  refine ⟨_, ?_, hmake, fun len => longer?_eq_none_iff, ?_, hrounds, htail⟩
  · rw [makeInWords_eq, hmake]
  · intro len hnone
    rw [← f.toNat_word]
    exact Word.lt_mul_of_mul?_eq_none hnone

/-- The largest buffer: one round, as the next product is no word, and a fold up to its end. -/
theorem make_in_words_of_max :
    1 ≤ (0x4000000000000000 : UInt64) ∧
    Word.mul? 0x8000000000000000 FanIn.two.word = none ∧
    makeInWords 0xffffffffffffffff 0x4000000000000000 0xffffffffffffffff .two = some (.ok
      ⟨2 ^ 64 - 1, 2 ^ 64 - 1, [⟨0, 2 ^ 62, 2 ^ 63, 1, 2 ^ 62, 2 ^ 63⟩],
        [2 ^ 63, 2 ^ 62, 2 ^ 62 - 1],
        [⟨2 ^ 63, 2 ^ 62, 2 ^ 62, 2 ^ 63, 2 ^ 63 + 2 ^ 62⟩,
          ⟨2 ^ 63 + 2 ^ 62, 2 ^ 62 - 1, 2 ^ 62 - 1, 2 ^ 63 + 2 ^ 62, 2 ^ 64 - 1⟩]⟩) := by
  have hblock : 1 ≤ (0x4000000000000000 : UInt64) := by decide
  obtain ⟨plan, hwords, hmake, -, -, -, -⟩ :=
    make_in_words 0xffffffffffffffff 0xffffffffffffffff hblock .two
  have hplan : make (0xffffffffffffffff : UInt64).toNat (0x4000000000000000 : UInt64).toNat
      (0xffffffffffffffff : UInt64).toNat .two = .ok
        ⟨2 ^ 64 - 1, 2 ^ 64 - 1, [⟨0, 2 ^ 62, 2 ^ 63, 1, 2 ^ 62, 2 ^ 63⟩],
          [2 ^ 63, 2 ^ 62, 2 ^ 62 - 1],
          [⟨2 ^ 63, 2 ^ 62, 2 ^ 62, 2 ^ 63, 2 ^ 63 + 2 ^ 62⟩,
            ⟨2 ^ 63 + 2 ^ 62, 2 ^ 62 - 1, 2 ^ 62 - 1, 2 ^ 63 + 2 ^ 62, 2 ^ 64 - 1⟩]⟩ := by
    simp [make, levels_cons, roundsOf, roundOf, tailOf, foldsOf, foldsFrom, FanIn.count]
  rw [hplan, Except.ok.injEq] at hmake
  subst hmake
  exact ⟨hblock, by decide, hwords⟩

end Plan
end KWayMerge
