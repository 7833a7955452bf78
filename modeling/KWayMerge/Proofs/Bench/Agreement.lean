import KWayMerge.Bench.Session
import KWayMerge.Proofs.Key.Value
import KWayMerge.Proofs.Ranking

/-!
# Three ways to the first values agree

A full sort in the total order need not be stable, for no two patterns are alike in this order: a
list has one ordered arrangement. The block selection gives the front of it, for every length of
the base blocks and every fan-in. A sort by value cannot be held to an order of the NaNs, nor of
the two zeros. Without NaNs, and with one of the zeros at most, the numbers tell all patterns apart,
and it arrives at the same arrangement. The descending order is the ascending one turned round.

So a session never complains that the block selection disagrees with a full sort, if it draws no
NaNs. Its comparison is that of numbers, in which a NaN differs from itself, so this is needed. The
sample data of a benchmark lie in the unit interval.

**Results.**
* `eq_of_perm_of_ordered`: there is one ordered arrangement.
* `ordered_of_pairwise_value`: what is ordered by value is ordered, where numbers tell patterns
  apart.
* `firstByBlocks_eq_take_turn`: the block selection gives the front of the ordered arrangement.
* `quiet_sizeSteps`, `quiet_session`: no step of a session complains.
* `ways_to_first_values_agree`: all of this together.
-/

namespace KWayMerge

/-! ### Ordered arrangements -/

namespace Direction

variable {α : Type}

/-- An ascending list as it is read in this direction. -/
def turn : Direction → List α → List α
  | .ascending, xs => xs
  | .descending, xs => xs.reverse

theorem turn_turn (d : Direction) (xs : List α) : d.turn (d.turn xs) = xs := by
  cases d with
  | ascending => rfl
  | descending => exact List.reverse_reverse xs

theorem perm_turn (d : Direction) (xs : List α) : (d.turn xs).Perm xs := by
  cases d with
  | ascending => exact .refl xs
  | descending => exact xs.reverse_perm

/-- A list is ordered in a direction if, read in it, it is ascending. -/
theorem ordered_comparator_iff [MergeKey α] (d : Direction) {xs : List α} :
    d.comparator.Ordered xs ↔ Comparator.Ordered MergeKey.order (d.turn xs) := by
  cases d with
  | ascending => rfl
  | descending => exact List.pairwise_reverse.symm

end Direction

section Arrangements

variable {fmt : FloatFormat} {sorted values : List (FloatBits fmt)}

/-- **There is one ordered arrangement of a list of patterns.** -/
theorem eq_of_perm_of_ordered {xs ys : List (FloatBits fmt)} (hperm : xs.Perm ys)
    (hxs : Comparator.Ordered FloatBits.totalCompare xs)
    (hys : Comparator.Ordered FloatBits.totalCompare ys) : xs = ys := by
  refine hperm.eq_of_pairwise ?_ hxs hys
  intro a b _ _ hab hba
  rw [FloatBits.isLE_totalCompare_iff] at hab hba
  exact FloatBits.totalRank_inj.1 (le_antisymm hab hba)

/-- So a sort may as well be stable as not. -/
theorem eq_stableSort_of_perm (d : Direction) (hperm : sorted.Perm values)
    (hordered : d.comparator.Ordered sorted) : sorted = d.comparator.stableSort values := by
  have hstable : d.comparator.Ordered (d.comparator.stableSort values) :=
    Comparator.ordered_stableSort values
  have hturned : (d.turn sorted).Perm (d.turn (d.comparator.stableSort values)) :=
    ((d.perm_turn _).trans hperm).trans
      ((Comparator.perm_stableSort _ _).symm.trans (d.perm_turn _).symm)
  rw [d.ordered_comparator_iff] at hordered hstable
  have heq := congrArg d.turn (eq_of_perm_of_ordered hturned hordered hstable)
  rwa [d.turn_turn, d.turn_turn] at heq

theorem turn_eq_stableSort (d : Direction) (hperm : sorted.Perm values)
    (hordered : Comparator.Ordered FloatBits.totalCompare sorted) :
    d.turn sorted = d.comparator.stableSort values := by
  refine eq_stableSort_of_perm d ((d.perm_turn sorted).trans hperm) ?_
  rw [d.ordered_comparator_iff, d.turn_turn]
  exact hordered

/--
**What is ordered by value is ordered**, if there are no NaNs and not both zeros.
-/
theorem ordered_of_pairwise_value (hfmt : 0 < fmt.infinity) (hperm : sorted.Perm values)
    (hnumbers : ∀ x ∈ values, x.isNaN = false)
    (hzeros : ¬ (.ofNat 0 ∈ values ∧ .ofNat (2 ^ fmt.magnitudeBits) ∈ values))
    (hordered : sorted.Pairwise fun a b => a.value ≤ b.value) :
    Comparator.Ordered FloatBits.totalCompare sorted := by
  refine hordered.imp_of_mem ?_
  intro a b ha hb hab
  have ha' : a ∈ values := hperm.mem_iff.1 ha
  have hb' : b ∈ values := hperm.mem_iff.1 hb
  rw [FloatBits.value_le_iff hfmt (hnumbers a ha') (hnumbers b hb')] at hab
  rw [FloatBits.isLE_totalCompare_iff]
  rcases lt_or_eq_of_le hab with hlt | heq
  · exact (FloatBits.totalRank_lt_of_valueRank_lt hlt).le
  · rcases FloatBits.eq_of_valueRank_eq heq with rfl | ⟨hazero, hbzero, hsign⟩
    · exact le_rfl
    · rw [FloatBits.eq_zero_of_magnitude_eq_zero hazero] at ha'
      rw [FloatBits.eq_zero_of_magnitude_eq_zero hbzero] at hb'
      cases hasign : a.sign <;> cases hbsign : b.sign <;>
        simp only [hasign, hbsign, if_true, Bool.false_eq_true, if_false] at ha' hb' hsign
      · exact absurd rfl hsign
      · exact absurd ⟨ha', hb'⟩ hzeros
      · exact absurd ⟨hb', ha'⟩ hzeros
      · exact absurd rfl hsign

/-- A stable sort by value is an arrangement by value. -/
theorem pairwise_value_stableSort (hfmt : 0 < fmt.infinity)
    (hnumbers : ∀ x ∈ values, x.isNaN = false) :
    (Comparator.stableSort FloatBits.valueCompare values).Pairwise
      fun a b => a.value ≤ b.value := by
  have hordered : Comparator.Ordered FloatBits.valueCompare
      (Comparator.stableSort FloatBits.valueCompare values) :=
    Comparator.ordered_stableSort values
  refine hordered.imp_of_mem ?_
  intro a b ha hb hab
  rw [Comparator.mem_stableSort] at ha hb
  rw [FloatBits.valueCompare_eq, Int.isLE_compare] at hab
  rwa [FloatBits.value_le_iff hfmt (hnumbers a ha) (hnumbers b hb)]

end Arrangements

/-! ### The block selection -/

section Blocks

variable {s : Settings} {values : List Single}

theorem firstByBlocks_eq (hbase : 1 ≤ s.baseBlock) (k : Nat) :
    firstByBlocks s values k =
      (s.direction.comparator.stableSort values).take (min k values.length) := by
  rw [firstByBlocks, blockSelection, selectedBy, result_sortAndSelect s hbase]

theorem firstByBlocks_eq_take (hbase : 1 ≤ s.baseBlock) (k : Nat) :
    firstByBlocks s values k = (s.direction.comparator.stableSort values).take k := by
  rw [firstByBlocks_eq hbase, ← Comparator.length_stableSort s.direction.comparator values,
    Nat.min_comm, take_min_length]

/-- **The block selection gives the front of the ordered arrangement.** -/
theorem firstByBlocks_eq_take_turn (hbase : 1 ≤ s.baseBlock) (k : Nat) {sorted : List Single}
    (hperm : sorted.Perm values)
    (hordered : Comparator.Ordered FloatBits.totalCompare sorted) :
    firstByBlocks s values k = (s.direction.turn sorted).take (min k values.length) := by
  rw [firstByBlocks_eq hbase, turn_eq_stableSort s.direction hperm hordered]

theorem firstByValueSort_eq (k : Nat) (d : Direction) :
    firstByValueSort values k d =
      (d.turn (Comparator.stableSort FloatBits.valueCompare values)).take k := by
  cases d with
  | ascending => rfl
  | descending => rfl

end Blocks

/-! ### The values of a session -/

section Samples

open SampleSource

theorem magnitude_ofNat_le {fmt : FloatFormat} (n : Nat) :
    (FloatBits.ofNat n : FloatBits fmt).magnitude ≤ n := by
  rw [FloatBits.magnitude, FloatBits.ofNat, BitVec.toNat_setWidth, BitVec.toNat_ofNat]
  exact (Nat.mod_le _ _).trans (Nat.mod_le _ _)

/-- A fraction below one has an exponent field below that of one. -/
theorem magnitude_fraction_lt {m : Nat} (hm : m < 2 ^ 23) :
    (fraction m).magnitude < 127 * 2 ^ 23 := by
  rw [fraction]
  split
  · exact (magnitude_ofNat_le 0).trans_lt (by decide)
  · next hne =>
      have htop : m.log2 < 23 := (Nat.log2_lt hne).2 hm
      have hrest : (m - 1 <<< m.log2) <<< (23 - m.log2) < 2 ^ 23 := by
        have hsmall : m - 2 ^ m.log2 < 2 ^ m.log2 := by
          have hlt : m < 2 ^ (m.log2 + 1) := Nat.lt_log2_self
          have hpos : 0 < 2 ^ m.log2 := Nat.two_pow_pos _
          rw [Nat.pow_succ] at hlt
          omega
        rw [Nat.shiftLeft_eq, Nat.shiftLeft_eq, Nat.one_mul]
        calc (m - 2 ^ m.log2) * 2 ^ (23 - m.log2)
            < 2 ^ m.log2 * 2 ^ (23 - m.log2) :=
              Nat.mul_lt_mul_of_pos_right hsmall (Nat.two_pow_pos _)
          _ = 2 ^ 23 := by rw [← Nat.pow_add, Nat.add_sub_cancel' htop.le]
      refine (magnitude_ofNat_le _).trans_lt ?_
      rw [Nat.shiftLeft_eq (127 + m.log2 - 23)]
      omega

/-- **No value that is drawn is a NaN.** -/
theorem isNaN_nextUnit (source : SampleSource) : source.nextUnit.1.isNaN = false := by
  have hm : (source.next.1.toUInt32 >>> 9).toNat < 2 ^ 23 := by
    have hword := source.next.1.toUInt32.toNat_lt
    rw [UInt32.toNat_shiftRight, Nat.shiftRight_eq_div_pow]
    exact Nat.div_lt_of_lt_mul (by simpa using hword)
  rw [FloatBits.isNaN_eq_false_iff]
  exact (magnitude_fraction_lt hm).le.trans (by decide)

theorem isNaN_of_mem_drawOnto {n : Nat} {source : SampleSource} {drawn : List Single}
    (hdrawn : ∀ x ∈ drawn, x.isNaN = false) :
    ∀ x ∈ (drawOnto n source drawn).1, x.isNaN = false := by
  induction n generalizing source drawn with
  | zero => simpa [drawOnto] using hdrawn
  | succ n ih => exact ih (List.forall_mem_cons.2 ⟨isNaN_nextUnit source, hdrawn⟩)

theorem isNaN_of_mem_draw (source : SampleSource) (n : Nat) :
    ∀ x ∈ (source.draw n).1, x.isNaN = false :=
  isNaN_of_mem_drawOnto (by simp)

end Samples

/-! ### Sessions without complaints -/

/-- The steps write nothing that complains about a block selection. -/
def Quiet (elapsed : String) (steps : List BenchStep) : Prop :=
  ∀ record ∈ (steps.map (BenchStep.records elapsed)).flatten,
    record.message ≠ "block top-k disagrees with full sort"

section Quiet

variable {elapsed : String}

theorem quiet_nil : Quiet elapsed [] := by
  simp [Quiet]

theorem Quiet.append {left right : List BenchStep} (hleft : Quiet elapsed left)
    (hright : Quiet elapsed right) : Quiet elapsed (left ++ right) := by
  intro record hrecord
  rw [List.map_append, List.flatten_append, List.mem_append] at hrecord
  exact hrecord.elim (hleft record) (hright record)

theorem Quiet.cons {step : BenchStep} {steps : List BenchStep} (hstep : Quiet elapsed [step])
    (hsteps : Quiet elapsed steps) : Quiet elapsed (step :: steps) :=
  hstep.append hsteps

theorem quiet_report {record : LogRecord}
    (h : record.message ≠ "block top-k disagrees with full sort") :
    Quiet elapsed [.report record] := by
  intro other hother
  rw [List.map_singleton, List.flatten_singleton, BenchStep.records, List.mem_singleton] at hother
  rwa [hother]

/-- A text is not the other if they begin with different letters. -/
theorem append_ne_of_head {front back text : String} (c : Char)
    (hfront : front.toList.head? = some c) (htext : text.toList.head? ≠ some c) :
    front ++ back ≠ text := by
  rintro rfl
  rw [String.toList_append, List.head?_append, hfront] at htext
  exact htext rfl

/-- What a selection itself reports is never a complaint. -/
theorem message_record_ne (event : Event) :
    event.record.message ≠ "block top-k disagrees with full sort" := by
  cases event <;> simp [Event.record, Event.message]

theorem quiet_measure (name : String) (repeats : Nat) (work : Unit → Worked) :
    Quiet elapsed [.measure name repeats work] := by
  intro record hrecord
  rw [List.map_singleton, List.flatten_singleton, BenchStep.records, List.mem_append,
    List.mem_singleton] at hrecord
  rcases hrecord with hevents | rfl
  · obtain ⟨records, hrecords, hmem⟩ := List.mem_flatten.1 hevents
    rw [List.eq_of_mem_replicate hrecords] at hmem
    obtain ⟨event, -, rfl⟩ := List.mem_map.1 hmem
    exact message_record_ne event
  · change "  " ++ name ++ ": " ++ elapsed ≠ _
    rw [String.append_assoc, String.append_assoc]
    exact append_ne_of_head ' ' (by decide) (by decide)

theorem quiet_events (events : List Event) :
    Quiet elapsed (events.map fun event => .report event.record) := by
  induction events with
  | nil => exact quiet_nil
  | cons event events ih => exact (quiet_report (message_record_ne event)).cons ih

theorem quiet_benchmarks (s : Settings) (rowLen : Nat) (values : List Single) (k repeats : Nat) :
    Quiet elapsed (benchmarks s rowLen values k repeats) := by
  refine Quiet.append ?_ ?_
  · exact (quiet_measure _ _ _).cons ((quiet_measure _ _ _).cons
      ((quiet_measure _ _ _).cons (quiet_measure _ _ _)))
  · split
    · exact quiet_measure _ _ _
    · exact quiet_nil

/-- A list of numbers is equal to itself. -/
theorem isEqv_equals_self {values : List Single} (h : ∀ x ∈ values, x.isNaN = false) :
    values.isEqv values FloatBits.equals = true := by
  induction values with
  | nil => rfl
  | cons x values ih =>
      rw [List.forall_mem_cons] at h
      have hx : x.equals x = true :=
        (FloatBits.equals_iff (by decide)).2 ⟨h.1, h.1, rfl⟩
      rw [List.isEqv, hx, ih h.2]
      rfl

variable {s : Settings}

/-- **The steps over a list of numbers do not complain**, whatever the numbers are. -/
theorem quiet_sizeSteps (hbase : 1 ≤ s.baseBlock) (o : Options) (power : Nat)
    {values : List Single} (hnumbers : ∀ x ∈ values, x.isNaN = false) :
    Quiet elapsed (sizeSteps o s power values) := by
  have hsame : selectedBy (blockSelection s values (min o.k values.length)) =
      firstByFullSort values (min o.k values.length) s.direction :=
    firstByBlocks_eq_take hbase _
  have hfirst : ∀ x ∈ firstByFullSort values (min o.k values.length) s.direction,
      x.isNaN = false := fun x hx =>
    hnumbers x (Comparator.mem_stableSort.1 (List.mem_of_mem_take hx))
  rw [sizeSteps, hsame, if_pos (isEqv_equals_self hfirst), List.append_nil]
  refine Quiet.append (.cons (quiet_report ?_) (quiet_events _)) (quiet_benchmarks _ _ _ _ _)
  exact append_ne_of_head 's' (by decide) (by decide)

section Sampling

variable {σ : Type} {draw : Sampler σ}

theorem quiet_sizesFrom (hbase : 1 ≤ s.baseBlock)
    (hdraw : ∀ start n, ∀ x ∈ (draw start n).1, x.isNaN = false) (o : Options)
    (sizes power : Nat) (source : σ) : Quiet elapsed (sizesFrom draw o s sizes power source) := by
  induction sizes generalizing power source with
  | zero => exact quiet_nil
  | succ sizes ih =>
      exact (quiet_sizeSteps hbase o power (hdraw source _)).append (ih _ _)

/-- **A session does not complain**, if no value that it draws is a NaN. -/
theorem quiet_session (hbase : 1 ≤ s.baseBlock)
    (hdraw : ∀ start n, ∀ x ∈ (draw start n).1, x.isNaN = false) (source : σ) (o : Options) :
    Quiet elapsed (session draw source o s) := by
  refine Quiet.cons (quiet_report ?_) (quiet_sizesFrom hbase hdraw o _ _ _)
  change "starting" ≠ _
  decide

end Sampling

theorem baseBlock_overriding (o : Options) (s : Settings) :
    (o.overriding s).baseBlock = s.baseBlock := by
  rw [Options.overriding]
  split <;> rfl

end Quiet

/--
**Three ways to the first values agree.** The block selection returns the front of the list that
the values make up in the total order, turned round for the descending direction. So does any full
sort, stable or not. So does any sort by value, if there are no NaNs and not both zeros. And so no
step of a session complains, over any values that are numbers; nor does a whole session with any
options, wherever it draws its values from, if none of them is a NaN.
-/
theorem ways_to_first_values_agree
    (s : Settings)
    (hbase : 1 ≤ s.baseBlock)
    (values : List Single)
    (k : Nat) :
    (∀ sorted : List Single, sorted.Perm values →
      Comparator.Ordered FloatBits.totalCompare sorted →
        firstByBlocks s values k = (s.direction.turn sorted).take (min k values.length)) ∧
    (∀ sorted : List Single, sorted.Perm values → s.direction.comparator.Ordered sorted →
      sorted.take k = firstByBlocks s values k) ∧
    firstByFullSort values k s.direction = firstByBlocks s values k ∧
    ((∀ x ∈ values, x.isNaN = false) → ¬ (.ofNat 0 ∈ values ∧ .ofNat 0x80000000 ∈ values) →
      (∀ sorted : List Single, sorted.Perm values →
        sorted.Pairwise (fun a b => a.value ≤ b.value) →
          (s.direction.turn sorted).take k = firstByBlocks s values k) ∧
      firstByValueSort values k s.direction = firstByBlocks s values k) ∧
    (∀ (o : Options) (power : Nat) (elapsed : String), (∀ x ∈ values, x.isNaN = false) →
      ∀ record ∈ ((sizeSteps o s power values).map (BenchStep.records elapsed)).flatten,
        record.message ≠ "block top-k disagrees with full sort") ∧
    (∀ {σ : Type} (draw : Sampler σ) (source : σ) (o : Options) (elapsed : String),
      (∀ start n, ∀ x ∈ (draw start n).1, x.isNaN = false) →
        ∀ record ∈
          ((session draw source o (o.overriding s)).map (BenchStep.records elapsed)).flatten,
          record.message ≠ "block top-k disagrees with full sort") := by
  have hvalue (hnumbers : ∀ x ∈ values, x.isNaN = false)
      (hzeros : ¬ (.ofNat 0 ∈ values ∧ .ofNat 0x80000000 ∈ values)) (sorted : List Single)
      (hperm : sorted.Perm values) (hsorted : sorted.Pairwise fun a b => a.value ≤ b.value) :
      (s.direction.turn sorted).take k = firstByBlocks s values k := by
    have hordered : Comparator.Ordered FloatBits.totalCompare sorted :=
      ordered_of_pairwise_value (by decide) hperm hnumbers hzeros hsorted
    rw [turn_eq_stableSort s.direction hperm hordered, firstByBlocks_eq_take hbase]
  refine ⟨?_, ?_, ?_, ?_, ?_, ?_⟩
  · intro sorted hperm hordered
    exact firstByBlocks_eq_take_turn hbase k hperm hordered
  · intro sorted hperm hordered
    rw [eq_stableSort_of_perm s.direction hperm hordered, firstByBlocks_eq_take hbase]
  · rw [firstByFullSort, firstByBlocks_eq_take hbase]
  · intro hnumbers hzeros
    refine ⟨hvalue hnumbers hzeros, ?_⟩
    rw [firstByValueSort_eq]
    exact hvalue hnumbers hzeros _ (Comparator.perm_stableSort _ _)
      (pairwise_value_stableSort (by decide) hnumbers)
  · intro o power elapsed hnumbers
    exact quiet_sizeSteps hbase o power hnumbers
  · intro σ draw source o elapsed hdraw
    rw [← baseBlock_overriding o s] at hbase
    exact quiet_session hbase hdraw source o

/-- Single-precision patterns for the case below. -/
def singles (patterns : List Nat) : List Single :=
  patterns.map FloatBits.ofNat

/--
NaNs of both signs, infinities and both zeros; numbers with one zero, sorted by value; and a
session over sample data.
-/
theorem ways_to_first_values_agree_on_singles :
    firstByBlocks ⟨.descending, 2, .three⟩
        (singles [0x7fc00001, 0x0, 0xffc00002, 0x3fc00000, 0x80000000, 0x7f800000, 0xff800000]) 6 =
      singles [0x7fc00001, 0x7f800000, 0x3fc00000, 0x0, 0x80000000, 0xff800000] ∧
    firstByValueSort (singles [0x3fc00000, 0x80000000, 0xff800000, 0x1]) 3 .ascending =
      firstByBlocks ⟨.ascending, 1, .two⟩ (singles [0x3fc00000, 0x80000000, 0xff800000, 0x1]) 3 ∧
    firstByBlocks ⟨.ascending, 1, .two⟩ (singles [0x3fc00000, 0x80000000, 0xff800000, 0x1]) 3 =
      singles [0xff800000, 0x80000000, 0x1] ∧
    (∀ start n, ∀ x ∈ (SampleSource.draw start n).1, x.isNaN = false) ∧
    ∀ record ∈ ((session SampleSource.draw .start .default
        (Options.default.overriding ⟨.ascending, 1, .two⟩)).map
          (BenchStep.records "1ms")).flatten,
      record.message ≠ "block top-k disagrees with full sort" := by
  obtain ⟨hblocks, -⟩ := ways_to_first_values_agree ⟨.descending, 2, .three⟩ (by decide)
    (singles [0x7fc00001, 0x0, 0xffc00002, 0x3fc00000, 0x80000000, 0x7f800000, 0xff800000]) 6
  obtain ⟨-, -, -, hnumbers, -, hsession⟩ :=
    ways_to_first_values_agree ⟨.ascending, 1, .two⟩ (by decide)
      (singles [0x3fc00000, 0x80000000, 0xff800000, 0x1]) 3
  obtain ⟨hsorted, hvalue⟩ := hnumbers (by decide) (by decide)
  refine ⟨?_, hvalue, ?_, isNaN_of_mem_draw, ?_⟩
  · exact hblocks
      (singles [0xffc00002, 0xff800000, 0x80000000, 0x0, 0x3fc00000, 0x7f800000, 0x7fc00001])
      (by decide) (by decide)
  · exact (hsorted (singles [0xff800000, 0x80000000, 0x1, 0x3fc00000]) (by decide)
      (by decide +kernel)).symm
  · exact hsession SampleSource.draw .start .default "1ms" isNaN_of_mem_draw

end KWayMerge
