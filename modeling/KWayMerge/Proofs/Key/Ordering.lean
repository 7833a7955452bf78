import KWayMerge.Proofs.Key.Laws
import KWayMerge.Proofs.Key.Value

/-!
# How the directions order keys

A merge knows its keys by a comparator alone, and that of a direction is a total preorder for keys
of every type: an element that does not come after another is before it or equal to it, and
nothing precedes itself. Equal keys are the same bits, except that places do not count.

The order of floating-point patterns is read off the bits: the bits below a sign that is set are
turned over, and the words are compared as integers in two's complement. It is the order of the
numbers that the patterns stand for. It tells the two zeros apart, and puts every NaN at one of the
ends.

**Results.**
* `toInt_folded`: with the low bits turned over, a pattern is the integer of its place.
* `comparator_eq_iff_sameValue`: equal keys are the same bits, at any places.
* `comparator_lt_iff`: patterns for numbers are ordered as the numbers, and zeros by their signs.
* `comparator_orders_keys`: all laws of both directions.
-/

namespace KWayMerge

/-! ## Laws of a comparator -/

/-- A comparator by which everything is either before, after or equal. -/
structure Comparator.IsTotalPreorder {α : Type} (cmp : Comparator α) : Prop where
  swap : ∀ a b, cmp b a = (cmp a b).swap
  total : ∀ a b, cmp a b ≠ .gt ∨ cmp b a ≠ .gt
  trans : ∀ a b c, cmp a b ≠ .gt → cmp b c ≠ .gt → cmp a c ≠ .gt
  irrefl : ∀ a, cmp.precedes a a = false

theorem Comparator.isTotalPreorder_of_transCmp {α : Type} (cmp : Comparator α)
    [Std.TransCmp cmp] : cmp.IsTotalPreorder where
  swap a b := Std.OrientedCmp.eq_swap
  total a b := by
    have hswap : cmp b a = (cmp a b).swap := Std.OrientedCmp.eq_swap
    cases h : cmp a b <;> simp [hswap, h]
  trans a b c hab hbc := by
    refine Ordering.ne_gt_iff_isLE.2 (Std.TransCmp.isLE_trans (b := b) ?_ ?_)
    · exact Ordering.ne_gt_iff_isLE.1 hab
    · exact Ordering.ne_gt_iff_isLE.1 hbc
  irrefl a := by
    have hself : cmp a a = .eq := Std.ReflCmp.compare_self
    simp [precedes, hself]

/-- The two directions see every pair the other way round. -/
theorem comparator_descending {α : Type} [MergeKey α] [Std.TransCmp (MergeKey.order (α := α))]
    (a b : α) :
    Direction.descending.comparator a b = (Direction.ascending.comparator a b).swap := by
  have hswap : MergeKey.order b a = (MergeKey.order a b).swap := Std.OrientedCmp.eq_swap
  exact hswap

/-- The same value: the same bits, and for placed keys the same value at any places. -/
def KeyType.SameValue : (key : KeyType) → key.Carrier → key.Carrier → Prop
  | .integer _ _ => fun a b => a = b
  | .float _ => fun a b => a = b
  | .placed key => fun a b => key.SameValue a.value b.value

theorem FixedInt.order_eq_iff {sign : Signedness} {width : Nat} (a b : FixedInt sign width) :
    MergeKey.order a b = .eq ↔ a = b := by
  have horder : MergeKey.order a b = compare a.toInt b.toInt := rfl
  rw [horder, Std.compare_eq_iff_eq, toInt_inj]

theorem FloatBits.order_eq_iff {fmt : FloatFormat} (a b : FloatBits fmt) :
    MergeKey.order a b = .eq ↔ a = b := by
  have horder : MergeKey.order a b = a.totalCompare b := rfl
  rw [horder, totalCompare_eq, Std.compare_eq_iff_eq, totalRank_inj]

theorem order_eq_iff_sameValue (key : KeyType) (a b : key.Carrier) :
    MergeKey.order a b = .eq ↔ key.SameValue a b := by
  induction key with
  | integer sign width => exact FixedInt.order_eq_iff a b
  | float fmt => exact FloatBits.order_eq_iff a b
  | placed key ih => exact ih a.value b.value

/-- **Equal keys are the same bits**, and equal placed keys have equal values. -/
theorem comparator_eq_iff_sameValue (key : KeyType) (d : Direction) (a b : key.Carrier) :
    d.comparator a b = .eq ↔ key.SameValue a b := by
  cases d with
  | ascending => exact order_eq_iff_sameValue key a b
  | descending =>
      rw [comparator_descending, Ordering.swap_eq_eq]
      exact order_eq_iff_sameValue key a b

/-! ## The bits of a pattern as an integer -/

/-- A shift that spreads the sign over all bits, and one that takes it off the first. -/
theorem sshiftRight_ushiftRight_one {w : Nat} (x : BitVec (w + 1)) :
    x.sshiftRight w >>> 1 = BitVec.cons false (if x.msb then BitVec.allOnes w else 0#w) := by
  refine BitVec.eq_of_getLsbD_eq ?_
  intro i hi
  rw [BitVec.getLsbD_ushiftRight, BitVec.getLsbD_sshiftRight, BitVec.getLsbD_cons]
  by_cases htop : i = w
  · simp [htop]
  · have hlow : ¬ w + 1 ≤ 1 + i := by omega
    have hlt : i < w := by omega
    have habove : ¬ w + (1 + i) < w + 1 := by omega
    rw [if_neg htop, if_neg habove]
    cases x.msb <;> simp [hlow, hlt]

namespace FloatBits

variable {fmt : FloatFormat} {x y : FloatBits fmt}

/-- The bits, of which those below the sign are turned over if it is set. -/
def folded (x : FloatBits fmt) : BitVec (fmt.magnitudeBits + 1) :=
  x.bits ^^^ (x.bits.sshiftRight fmt.magnitudeBits >>> 1)

theorem folded_eq_cons (x : FloatBits fmt) :
    x.folded = .cons x.sign
      (if x.sign then ~~~x.bits.setWidth fmt.magnitudeBits
      else x.bits.setWidth fmt.magnitudeBits) := by
  rw [folded, sshiftRight_ushiftRight_one]
  nth_rewrite 1 [← BitVec.cons_msb_setWidth x.bits]
  rw [BitVec.cons_xor_cons, Bool.xor_false, sign]
  cases x.bits.msb <;> simp

theorem magnitude_lt (x : FloatBits fmt) : x.magnitude < 2 ^ fmt.magnitudeBits :=
  BitVec.isLt _

/-- **With the low bits turned over, a pattern is the integer of its place.** -/
theorem toInt_folded (x : FloatBits fmt) : x.folded.toInt = x.totalRank := by
  have hlt := x.magnitude_lt
  rw [BitVec.toInt_eq_msb_cond, folded_eq_cons, BitVec.msb_cons, BitVec.toNat_cons', totalRank]
  rw [magnitude] at *
  by_cases hsign : x.sign = true
  · simp only [hsign, if_true, BitVec.toNat_not, Bool.toNat_true, Nat.shiftLeft_eq, Nat.one_mul,
      Nat.pow_succ]
    omega
  · simp only [hsign, if_false, Bool.toNat_false, Bool.false_eq_true, Nat.zero_shiftLeft,
      Nat.zero_add]

/-! ## Signs, numbers and NaNs -/

theorem comparator_eq_compare (x y : FloatBits fmt) :
    Direction.ascending.comparator x y = compare x.totalRank y.totalRank :=
  totalCompare_eq x y

/-- **Patterns with a sign stand before those without.** -/
theorem comparator_of_signs (hx : x.sign = true) (hy : y.sign = false) :
    Direction.ascending.comparator x y = .lt := by
  rw [comparator_eq_compare, Std.compare_eq_lt, totalRank, totalRank, if_pos hx,
    if_neg (Bool.eq_false_iff.1 hy)]
  omega

/-- The total order is that of the values, and among equal values that of the signs. -/
theorem totalRank_lt_iff :
    x.totalRank < y.totalRank ↔
      x.valueRank < y.valueRank ∨
        x.valueRank = y.valueRank ∧ x.sign = true ∧ y.sign = false := by
  rw [totalRank, totalRank, valueRank, valueRank]
  cases x.sign <;> cases y.sign <;> simp <;> omega

/-- **Patterns for numbers are ordered as the numbers**, and the two zeros by their signs. -/
theorem comparator_lt_iff (hfmt : 0 < fmt.infinity) (hx : x.isNaN = false)
    (hy : y.isNaN = false) :
    Direction.ascending.comparator x y = .lt ↔
      x.value < y.value ∨ x.value = y.value ∧ x.sign = true ∧ y.sign = false := by
  have hxy := value_le_iff hfmt hx hy
  have hyx := value_le_iff hfmt hy hx
  have hlt : x.value < y.value ↔ x.valueRank < y.valueRank := by
    rw [lt_iff_not_ge, lt_iff_not_ge, hyx]
  have heq : x.value = y.value ↔ x.valueRank = y.valueRank := by
    rw [le_antisymm_iff, le_antisymm_iff, hxy, hyx]
  rw [comparator_eq_compare, Std.compare_eq_lt, totalRank_lt_iff, hlt, heq]

/-- **A NaN stands beyond all numbers and infinities**, on the side of its sign. -/
theorem comparator_of_isNaN (hx : x.isNaN = true) (hy : y.isNaN = false) :
    Direction.ascending.comparator x y = if x.sign then .lt else .gt := by
  rw [isNaN_eq_false_iff] at hy
  rw [isNaN, decide_eq_true_eq] at hx
  rw [comparator_eq_compare, totalRank, totalRank]
  cases x.sign with
  | true =>
      rw [if_pos rfl, if_pos rfl, Std.compare_eq_lt]
      split <;> omega
  | false =>
      rw [if_neg Bool.false_ne_true, if_neg Bool.false_ne_true, Std.compare_eq_gt]
      split <;> omega

/-- A pattern with a sign and the bits below it. -/
def ofParts (negative : Bool) (magnitude : Nat) : FloatBits fmt :=
  ⟨.cons negative (.ofNat fmt.magnitudeBits magnitude)⟩

theorem sign_ofParts (negative : Bool) (magnitude : Nat) :
    (ofParts negative magnitude : FloatBits fmt).sign = negative :=
  BitVec.msb_cons

theorem magnitude_ofParts (negative : Bool) {m : Nat} (hm : m < 2 ^ fmt.magnitudeBits) :
    (ofParts negative m : FloatBits fmt).magnitude = m := by
  rw [magnitude, ofParts, BitVec.setWidth_cons, BitVec.toNat_ofNat, Nat.mod_eq_of_lt hm]

theorem infinity_lt (fmt : FloatFormat) : fmt.infinity < 2 ^ fmt.magnitudeBits := by
  have hones : 1 <<< fmt.exponentBits - 1 < 2 ^ fmt.exponentBits := by
    rw [Nat.shiftLeft_eq, Nat.one_mul]
    exact Nat.sub_one_lt (Nat.two_pow_pos _).ne'
  rw [FloatFormat.infinity, FloatFormat.magnitudeBits, Nat.shiftLeft_eq, Nat.pow_add]
  exact Nat.mul_lt_mul_of_pos_right hones (Nat.two_pow_pos _)

theorem infinity_pos (h : 0 < fmt.exponentBits) : 0 < fmt.infinity := by
  have hones : 0 < 1 <<< fmt.exponentBits - 1 := by
    rw [Nat.shiftLeft_eq, Nat.one_mul]
    exact Nat.sub_pos_of_lt (Nat.one_lt_two_pow h.ne')
  rw [FloatFormat.infinity, Nat.shiftLeft_eq]
  exact Nat.mul_pos hones (Nat.two_pow_pos _)

theorem value_ofParts_zero (hfmt : 0 < fmt.infinity) (negative : Bool) :
    (ofParts negative 0 : FloatBits fmt).value = ((0 : ℚ) : WithTop ℚ) := by
  rw [value, magnitude_ofParts negative (Nat.two_pow_pos _), if_pos hfmt,
    FloatFormat.number_zero, neg_zero, ite_self]

theorem value_ofParts_infinity (negative : Bool) :
    (ofParts negative fmt.infinity : FloatBits fmt).value = if negative then ⊥ else ⊤ := by
  rw [value, magnitude_ofParts negative (infinity_lt fmt), if_neg (Nat.lt_irrefl _), sign_ofParts]

theorem isNaN_ofParts_infinity (negative : Bool) :
    (ofParts negative fmt.infinity : FloatBits fmt).isNaN = false := by
  rw [isNaN_eq_false_iff, magnitude_ofParts negative (infinity_lt fmt)]

end FloatBits

/-- How an ascending order takes floating-point patterns. -/
structure OrdersPatterns {fmt : FloatFormat} (cmp : Comparator (FloatBits fmt)) : Prop where
  /-- The bits are compared as words in two's complement. -/
  words : ∀ x y, cmp x y = compare x.folded.toInt y.folded.toInt
  signs : ∀ x y, x.sign = true → y.sign = false → cmp x y = .lt
  numbers : ∀ x y, x.isNaN = false → y.isNaN = false →
    (cmp x y = .lt ↔ x.value < y.value ∨ x.value = y.value ∧ x.sign = true ∧ y.sign = false)
  zeros : cmp (.ofParts true 0) (.ofParts false 0) = .lt
  /-- A NaN without a sign stands behind infinity, and one with a sign before the negative one. -/
  nans : ∀ x : FloatBits fmt, x.isNaN = true →
    if x.sign then cmp x (.ofParts true fmt.infinity) = .lt
    else cmp (.ofParts false fmt.infinity) x = .lt

theorem ordersPatterns_ascending {fmt : FloatFormat} (hfmt : 0 < fmt.infinity) :
    OrdersPatterns (Direction.ascending.comparator (α := FloatBits fmt)) where
  words x y := by
    rw [FloatBits.comparator_eq_compare, FloatBits.toInt_folded, FloatBits.toInt_folded]
  signs x y hx hy := FloatBits.comparator_of_signs hx hy
  numbers x y hx hy := FloatBits.comparator_lt_iff hfmt hx hy
  zeros := FloatBits.comparator_of_signs (FloatBits.sign_ofParts _ _) (FloatBits.sign_ofParts _ _)
  nans x hx := by
    have hbeyond (negative : Bool) :=
      FloatBits.comparator_of_isNaN hx (FloatBits.isNaN_ofParts_infinity negative)
    split
    · next hsign => rw [hbeyond, if_pos hsign]
    · next hsign =>
        rw [← Ordering.swap_eq_gt, ← Std.OrientedCmp.eq_swap, hbeyond, if_neg hsign]

/--
**The directions order the keys of every type.** Either of them is a total preorder, and one is
the other seen from the end. Equal keys are the same bits, but for the places of placed ones.
Floating-point patterns are ordered by their signs first. Those for different numbers or infinities
are ordered as these, the negative zero is before the positive, and NaNs are beyond the infinities.
-/
theorem comparator_orders_keys
    (key : KeyType)
    {fmt : FloatFormat}
    (hfmt : 0 < fmt.exponentBits) :
    (∀ d : Direction,
      (d.comparator (α := key.Carrier)).IsTotalPreorder ∧
      ∀ a b : key.Carrier, d.comparator a b = .eq ↔ key.SameValue a b) ∧
    (∀ a b : key.Carrier,
      Direction.descending.comparator a b = (Direction.ascending.comparator a b).swap) ∧
    OrdersPatterns (Direction.ascending.comparator (α := FloatBits fmt)) ∧
    ∀ negative : Bool,
      (FloatBits.ofParts negative 0 : FloatBits fmt).value = ((0 : ℚ) : WithTop ℚ) ∧
      (FloatBits.ofParts negative fmt.infinity : FloatBits fmt).value =
        if negative then ⊥ else ⊤ := by
  have hinfinity : 0 < fmt.infinity := FloatBits.infinity_pos hfmt
  refine ⟨?_, comparator_descending, ordersPatterns_ascending hinfinity, ?_⟩
  · intro d
    exact ⟨Comparator.isTotalPreorder_of_transCmp _, comparator_eq_iff_sameValue key d⟩
  · intro negative
    exact ⟨FloatBits.value_ofParts_zero hinfinity negative,
      FloatBits.value_ofParts_infinity negative⟩

/-- The least half above zero and a NaN; placed doubles with one value and different places. -/
theorem comparator_orders_halves_and_placed_doubles :
    0 < FloatFormat.half.exponentBits ∧
    Direction.ascending.comparator (.ofNat 0x8000 : FloatBits .half) (.ofNat 0x0000) = .lt ∧
    Direction.ascending.comparator (.ofNat 0x0000 : FloatBits .half) (.ofNat 0x0001) = .lt ∧
    Direction.ascending.comparator (.ofNat 0xfe00 : FloatBits .half) (.ofNat 0xfc00) = .lt ∧
    Direction.descending.comparator
      (⟨.ofNat 0x3ff8000000000000, 7⟩ : (KeyType.placed (.float .double)).Carrier)
      ⟨.ofNat 0x3ff8000000000000, 1⟩ = .eq := by
  have hhalves : 0 < FloatFormat.half.exponentBits := by decide
  obtain ⟨hlaws, -, hhalf, -⟩ := comparator_orders_keys (.placed (.float .double)) hhalves
  refine ⟨hhalves, hhalf.zeros, ?_, ?_, ?_⟩
  · rw [hhalf.numbers _ _ (by decide) (by decide)]
    exact .inl (by decide +kernel)
  · exact hhalf.nans (.ofNat 0xfe00) (by decide)
  · exact ((hlaws .descending).2 _ _).2 rfl

end KWayMerge
