import KWayMerge.Key.Float
import Mathlib.Tactic
import Mathlib.Order.Monotone.Odd
import Mathlib.Order.WithBot

/-!
# The numbers that floating-point patterns stand for

A pattern that is no NaN stands for a rational number or an infinity. The bits below the sign are
an exponent field above a fraction field: an exponent field of zeros gives the fraction itself,
every other one gives a number between one power of two and the next. In units of the least number
above zero all of these are natural numbers, and they grow with the bits, also where the exponent
field begins and where it goes up by one. So the place of a pattern among the values is an order of
the numbers, although it is read off the bits.

**Results.**
* `strictMono_units`: larger magnitudes stand for larger numbers.
* `value_le_iff`: patterns are ordered by their places as the numbers are that they stand for.
* `equals_iff`: two patterns are equal as numbers if they stand for the same one.
* `eq_of_valueRank_eq`: patterns for one number are the same bits, but for the two zeros.
-/

namespace KWayMerge

namespace FloatFormat

variable (fmt : FloatFormat)

/-- What an exponent field has to be lowered by. -/
def bias : Nat :=
  2 ^ (fmt.exponentBits - 1) - 1

/-- The number of a pattern without a sign, for magnitudes below that of infinity. -/
def number (magnitude : Nat) : ℚ :=
  let exponent := magnitude / 2 ^ fmt.fractionBits
  let fraction : ℚ := (magnitude % 2 ^ fmt.fractionBits : Nat) / 2 ^ fmt.fractionBits
  if exponent = 0 then
    fraction * 2 ^ (1 - fmt.bias : ℤ)
  else
    (1 + fraction) * 2 ^ (exponent - fmt.bias : ℤ)

/-- This number in units of the least above zero. -/
def units (magnitude : Nat) : Nat :=
  let exponent := magnitude / 2 ^ fmt.fractionBits
  let fraction := magnitude % 2 ^ fmt.fractionBits
  if exponent = 0 then fraction else (2 ^ fmt.fractionBits + fraction) * 2 ^ (exponent - 1)

theorem number_eq (magnitude : Nat) :
    fmt.number magnitude =
      fmt.units magnitude * ((2 : ℚ) ^ (1 - fmt.bias : ℤ) / 2 ^ fmt.fractionBits) := by
  rw [number, units]
  split
  · ring
  · next hexponent =>
      obtain ⟨e, he⟩ := Nat.exists_eq_succ_of_ne_zero hexponent
      have hpow : (2 : ℚ) ^ ((e.succ : ℤ) - fmt.bias) = 2 ^ e * 2 ^ (1 - fmt.bias : ℤ) := by
        rw [← zpow_natCast, ← zpow_add₀ two_ne_zero]
        congr 1
        push_cast
        ring
      have hfraction : (2 : ℚ) ^ fmt.fractionBits ≠ 0 := by positivity
      rw [he, hpow, Nat.succ_sub_one]
      push_cast
      field_simp

/-- The units of a pattern by its two fields. -/
theorem units_of_fields (exponent : Nat) {fraction : Nat}
    (h : fraction < 2 ^ fmt.fractionBits) :
    fmt.units (2 ^ fmt.fractionBits * exponent + fraction) =
      if exponent = 0 then fraction
      else (2 ^ fmt.fractionBits + fraction) * 2 ^ (exponent - 1) := by
  rw [units, Nat.mul_add_div (Nat.two_pow_pos _), Nat.div_eq_of_lt h, Nat.mul_add_mod,
    Nat.mod_eq_of_lt h, Nat.add_zero]

/-- **Larger magnitudes stand for larger numbers.** -/
theorem strictMono_units : StrictMono fmt.units := by
  refine strictMono_nat_of_lt_succ ?_
  intro magnitude
  have hfraction : magnitude % 2 ^ fmt.fractionBits < 2 ^ fmt.fractionBits :=
    Nat.mod_lt _ (Nat.two_pow_pos _)
  rw [← Nat.div_add_mod magnitude (2 ^ fmt.fractionBits)]
  generalize magnitude / 2 ^ fmt.fractionBits = exponent at *
  generalize magnitude % 2 ^ fmt.fractionBits = fraction at *
  have hunits := units_of_fields fmt exponent hfraction
  by_cases hlast : fraction + 1 < 2 ^ fmt.fractionBits
  · rw [hunits, Nat.add_assoc, units_of_fields fmt exponent hlast]
    split
    · exact Nat.lt_succ_self fraction
    · exact Nat.mul_lt_mul_of_pos_right (by omega) (Nat.two_pow_pos _)
  · -- the fraction field is full, and the exponent field goes up
    have hnext : 2 ^ fmt.fractionBits * exponent + fraction + 1 =
        2 ^ fmt.fractionBits * (exponent + 1) + 0 := by
      rw [Nat.mul_succ]
      omega
    rw [hunits, hnext, units_of_fields fmt (exponent + 1) (Nat.two_pow_pos _),
      if_neg (Nat.succ_ne_zero exponent), Nat.add_zero, Nat.add_sub_cancel]
    cases exponent with
    | zero => simpa using hfraction
    | succ e =>
        rw [if_neg (Nat.succ_ne_zero e), Nat.add_sub_cancel, Nat.pow_succ', ← Nat.mul_assoc]
        exact Nat.mul_lt_mul_of_pos_right (by omega) (Nat.two_pow_pos _)

theorem strictMono_number : StrictMono fmt.number := by
  have hunit : (0 : ℚ) < 2 ^ (1 - fmt.bias : ℤ) / 2 ^ fmt.fractionBits := by positivity
  intro a b hab
  rw [number_eq, number_eq]
  exact mul_lt_mul_of_pos_right (Nat.cast_lt.2 (fmt.strictMono_units hab)) hunit

theorem number_zero : fmt.number 0 = 0 := by
  simp [number]

/-- The number at a place among the values: that of the magnitude, on either side of zero. -/
def numberAt (rank : ℤ) : ℚ :=
  rank.sign * fmt.number rank.natAbs

theorem numberAt_natCast (n : Nat) : fmt.numberAt n = fmt.number n := by
  rw [numberAt, Int.natAbs_natCast]
  cases n with
  | zero => rw [number_zero, mul_zero]
  | succ n => rw [Int.sign_natCast_of_ne_zero n.succ_ne_zero, Int.cast_one, one_mul]

theorem numberAt_neg (rank : ℤ) : fmt.numberAt (-rank) = -fmt.numberAt rank := by
  rw [numberAt, numberAt, Int.sign_neg, Int.natAbs_neg, Int.cast_neg, neg_mul]

/-- **Higher places are those of larger numbers**, on both sides of zero. -/
theorem strictMono_numberAt : StrictMono fmt.numberAt := by
  refine strictMono_of_odd_strictMonoOn_nonneg fmt.numberAt_neg ?_
  intro r hr s hs hrs
  obtain ⟨a, rfl⟩ := Int.eq_ofNat_of_zero_le hr
  obtain ⟨b, rfl⟩ := Int.eq_ofNat_of_zero_le hs
  rw [numberAt_natCast, numberAt_natCast]
  exact fmt.strictMono_number (Int.ofNat_lt.1 hrs)

/-- The number or the infinity at a place among the values. -/
def valueAt (rank : ℤ) : WithBot (WithTop ℚ) :=
  if rank ≤ -fmt.infinity then ⊥
  else if fmt.infinity ≤ rank then ⊤
  else (fmt.numberAt rank : WithTop ℚ)

theorem strictMonoOn_valueAt :
    StrictMonoOn fmt.valueAt (Set.Icc (-fmt.infinity) fmt.infinity) := by
  rintro r ⟨hr, -⟩ s ⟨-, hs⟩ hrs
  have hbelow : ¬ (fmt.infinity : ℤ) ≤ r := by omega
  have habove : ¬ s ≤ -(fmt.infinity : ℤ) := by omega
  rw [valueAt, valueAt, if_neg hbelow, if_neg habove]
  by_cases hbot : r ≤ -fmt.infinity
  · rw [if_pos hbot]
    split
    · exact bot_lt_top
    · exact WithBot.bot_lt_coe _
  · rw [if_neg hbot]
    split
    · exact WithBot.coe_lt_coe.2 (WithTop.coe_lt_top _)
    · exact WithBot.coe_lt_coe.2 (WithTop.coe_lt_coe.2 (fmt.strictMono_numberAt hrs))

end FloatFormat

namespace FloatBits

variable {fmt : FloatFormat} {a b x : FloatBits fmt}

/-- The number or the infinity that a pattern stands for, if it is no NaN. -/
def value (x : FloatBits fmt) : WithBot (WithTop ℚ) :=
  if x.magnitude < fmt.infinity then
    ((if x.sign then -fmt.number x.magnitude else fmt.number x.magnitude : ℚ) : WithTop ℚ)
  else if x.sign then ⊥
  else ⊤

example : (ofNat 0x3fc00000 : FloatBits .single).value = ((3 / 2 : ℚ) : WithTop ℚ) := by
  decide +kernel

example : (ofNat 0x80000001 : FloatBits .single).value = ((-1 / 2 ^ 149 : ℚ) : WithTop ℚ) := by
  decide +kernel

theorem isNaN_eq_false_iff : x.isNaN = false ↔ x.magnitude ≤ fmt.infinity := by
  rw [isNaN, decide_eq_false_iff_not, not_lt]

/-- A number or an infinity is what stands at the place of the pattern. -/
theorem value_eq_valueAt (hfmt : 0 < fmt.infinity) (hx : x.isNaN = false) :
    x.value = fmt.valueAt x.valueRank := by
  rw [isNaN_eq_false_iff] at hx
  rw [value, FloatFormat.valueAt, valueRank]
  by_cases hsign : x.sign = true
  · simp only [hsign, if_true]
    by_cases hlt : x.magnitude < fmt.infinity
    · rw [if_pos hlt, if_neg (by omega), if_neg (by omega), FloatFormat.numberAt_neg,
        FloatFormat.numberAt_natCast]
    · rw [if_neg hlt, if_pos (by omega)]
  · simp only [hsign, Bool.false_eq_true, if_false]
    by_cases hlt : x.magnitude < fmt.infinity
    · rw [if_pos hlt, if_neg (by omega), if_neg (by omega), FloatFormat.numberAt_natCast]
    · rw [if_neg hlt, if_neg (by omega), if_pos (by omega)]

theorem valueRank_mem_Icc (hx : x.isNaN = false) :
    x.valueRank ∈ Set.Icc (-fmt.infinity : ℤ) fmt.infinity := by
  rw [isNaN_eq_false_iff] at hx
  rw [valueRank]
  split
  all_goals exact ⟨by omega, by omega⟩

/-- **The places of patterns are ordered as the numbers are that they stand for.** -/
theorem value_le_iff (hfmt : 0 < fmt.infinity) (ha : a.isNaN = false) (hb : b.isNaN = false) :
    a.value ≤ b.value ↔ a.valueRank ≤ b.valueRank := by
  rw [value_eq_valueAt hfmt ha, value_eq_valueAt hfmt hb]
  exact fmt.strictMonoOn_valueAt.le_iff_le (valueRank_mem_Icc ha) (valueRank_mem_Icc hb)

/-- **Equality as numbers** is equality of the numbers; a NaN is not equal to anything. -/
theorem equals_iff (hfmt : 0 < fmt.infinity) :
    a.equals b = true ↔ a.isNaN = false ∧ b.isNaN = false ∧ a.value = b.value := by
  have hvalue (ha : a.isNaN = false) (hb : b.isNaN = false) :
      a.valueRank = b.valueRank ↔ a.value = b.value := by
    rw [le_antisymm_iff, le_antisymm_iff, value_le_iff hfmt ha hb, value_le_iff hfmt hb ha]
  simp only [equals, Bool.and_eq_true, Bool.not_eq_true', beq_iff_eq, and_assoc]
  exact and_congr_right fun ha => and_congr_right fun hb => hvalue ha hb

theorem isLE_totalCompare_iff (a b : FloatBits fmt) :
    (a.totalCompare b).isLE = true ↔ a.totalRank ≤ b.totalRank := by
  rw [totalCompare_eq, Int.isLE_compare]

/-- The total order refines the order of the values. -/
theorem totalRank_lt_of_valueRank_lt (h : a.valueRank < b.valueRank) :
    a.totalRank < b.totalRank := by
  rw [valueRank, valueRank] at h
  rw [totalRank, totalRank]
  cases ha : a.sign <;> cases hb : b.sign <;> simp [ha, hb] at h ⊢ <;> omega

/-- A pattern without bits below the sign is one of the two zeros. -/
theorem eq_zero_of_magnitude_eq_zero (hx : x.magnitude = 0) :
    x = .ofNat (if x.sign then 2 ^ fmt.magnitudeBits else 0) := by
  obtain ⟨bits⟩ := x
  have hbits := toNat_bits ⟨bits⟩
  simp only [hx, Nat.add_zero, Nat.shiftLeft_eq, Nat.one_mul] at hbits
  rw [ofNat, ← hbits, BitVec.ofNat_toNat, BitVec.setWidth_eq]

/-- **Patterns for one number are the same bits**, except that there are two zeros. -/
theorem eq_of_valueRank_eq (h : a.valueRank = b.valueRank) :
    a = b ∨ (a.magnitude = 0 ∧ b.magnitude = 0 ∧ a.sign ≠ b.sign) := by
  by_cases hsign : a.sign = b.sign
  · left
    rw [← totalRank_inj, totalRank, totalRank, hsign]
    rw [valueRank, valueRank, hsign] at h
    split
    · next hb =>
        rw [if_pos hb, if_pos hb] at h
        omega
    · next hb => rwa [if_neg hb, if_neg hb] at h
  · right
    rw [valueRank, valueRank] at h
    refine ⟨?_, ?_, hsign⟩
    all_goals
      cases ha : a.sign <;> cases hb : b.sign <;> simp [ha, hb] at h hsign <;> omega

end FloatBits
end KWayMerge
