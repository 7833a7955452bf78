import KWayMerge.Key.Basic

/-!
# Binary floating point as merge keys

A floating-point key is its bit pattern: a sign, an exponent field and a fraction field. Keys
are ordered by the total order of the patterns, in which every pattern with a sign bit stands
before every pattern without one, larger magnitudes stand further out on both sides, and NaNs
stand beyond the infinity of their sign. Patterns are never altered.

**Results.** `totalCompare_eq` and `valueCompare_eq` read the two orders off the places of the
patterns, and `totalRank_inj` says that no two patterns share a place.
-/

namespace KWayMerge

/-- The sizes of the two fields below the sign bit. -/
structure FloatFormat where
  exponentBits : Nat
  fractionBits : Nat
deriving DecidableEq, Repr

namespace FloatFormat

def magnitudeBits (fmt : FloatFormat) : Nat :=
  fmt.exponentBits + fmt.fractionBits

def half : FloatFormat := ⟨5, 10⟩

def single : FloatFormat := ⟨8, 23⟩

def double : FloatFormat := ⟨11, 52⟩

/-- The magnitude of the infinities: an exponent field of ones above a fraction field of zeros. -/
def infinity (fmt : FloatFormat) : Nat :=
  (1 <<< fmt.exponentBits - 1) <<< fmt.fractionBits

end FloatFormat

/-- A bit pattern of a format: the sign bit and the bits below it. -/
structure FloatBits (fmt : FloatFormat) where
  bits : BitVec (fmt.magnitudeBits + 1)
deriving DecidableEq

namespace FloatBits

variable {fmt : FloatFormat}

/-- Whether the sign bit is set. -/
def sign (x : FloatBits fmt) : Bool :=
  x.bits.msb

/-- The bits below the sign, as a number. -/
def magnitude (x : FloatBits fmt) : Nat :=
  (x.bits.setWidth fmt.magnitudeBits).toNat

/-- The place of a pattern in the total order; zero is the place of positive zero. -/
def totalRank (x : FloatBits fmt) : Int :=
  if x.sign then -(x.magnitude + 1 : Int) else x.magnitude

/-- The place of a pattern among the values: the two zeros share one. -/
def valueRank (x : FloatBits fmt) : Int :=
  if x.sign then -(x.magnitude : Int) else x.magnitude

/-- The pattern whose bits spell `n`. -/
def ofNat (n : Nat) : FloatBits fmt :=
  ⟨BitVec.ofNat _ n⟩

/--
The total order: a negative sign comes first, then smaller magnitudes without a sign bit and
larger ones with it.
-/
def totalCompare (a b : FloatBits fmt) : Ordering :=
  match a.sign, b.sign with
  | false, false => compare a.bits.toNat b.bits.toNat
  | true, true => compare b.bits.toNat a.bits.toNat
  | true, false => .lt
  | false, true => .gt

/-- Whether a pattern stands for no number. -/
def isNaN (x : FloatBits fmt) : Bool :=
  fmt.infinity < x.magnitude

/-- Equality of numbers: the two zeros are equal, and what is no number is not equal to itself. -/
def equals (a b : FloatBits fmt) : Bool :=
  !a.isNaN && !b.isNaN && a.valueRank == b.valueRank

/-- The order of the values: the total order, but for the two zeros, which are equal. -/
def valueCompare (a b : FloatBits fmt) : Ordering :=
  if a.sign != b.sign && a.magnitude == 0 && b.magnitude == 0 then .eq else a.totalCompare b

instance : MergeKey (FloatBits fmt) where
  order := totalCompare

/-- A pattern is its sign and its magnitude. -/
theorem toNat_bits (x : FloatBits fmt) :
    x.bits.toNat = (if x.sign then 1 <<< fmt.magnitudeBits else 0) + x.magnitude := by
  obtain ⟨bits⟩ := x
  have hlt := bits.isLt
  rw [Nat.pow_succ] at hlt
  simp only [sign, magnitude, BitVec.msb_eq_decide, Nat.add_sub_cancel, BitVec.toNat_setWidth,
    Nat.shiftLeft_eq, Nat.one_mul]
  by_cases h : 2 ^ fmt.magnitudeBits ≤ bits.toNat
  · have hmod : bits.toNat % 2 ^ fmt.magnitudeBits = bits.toNat - 2 ^ fmt.magnitudeBits := by
      rw [Nat.mod_eq_sub_mod h, Nat.mod_eq_of_lt (by omega)]
    simp only [h, decide_true, if_true, hmod]
    omega
  · rw [Nat.mod_eq_of_lt (by omega)]
    simp [h]

/-- The total order compares the places. -/
theorem totalCompare_eq (a b : FloatBits fmt) :
    a.totalCompare b = compare a.totalRank b.totalRank := by
  have ha := toNat_bits a
  have hb := toNat_bits b
  cases hsa : a.sign <;> cases hsb : b.sign <;>
    simp only [hsa, hsb, Bool.false_eq_true, if_true, if_false] at ha hb <;>
    simp only [totalCompare, totalRank, hsa, hsb, Bool.false_eq_true, if_true, if_false,
      ha, hb] <;>
    simp only [compare, compareOfLessAndEq] <;> grind

/-- The order of the values compares the places among the values. -/
theorem valueCompare_eq (a b : FloatBits fmt) :
    a.valueCompare b = compare a.valueRank b.valueRank := by
  rw [valueCompare, totalCompare_eq]
  cases hsa : a.sign <;> cases hsb : b.sign <;>
    simp only [totalRank, valueRank, hsa, hsb, Bool.false_eq_true, if_true, if_false] <;>
    simp only [compare, compareOfLessAndEq] <;> grind

/-- Patterns in one place of the total order are the same bits. -/
theorem totalRank_inj {a b : FloatBits fmt} : a.totalRank = b.totalRank ↔ a = b := by
  constructor
  · intro h
    have ha := toNat_bits a
    have hb := toNat_bits b
    have hsign : a.sign = b.sign := by
      cases hsa : a.sign <;> cases hsb : b.sign <;> simp [totalRank, hsa, hsb] at h ⊢ <;> omega
    have hmag : a.magnitude = b.magnitude := by
      cases hsb : b.sign <;> simp [totalRank, hsign, hsb] at h <;> omega
    obtain ⟨abits⟩ := a
    obtain ⟨bbits⟩ := b
    congr 1
    apply BitVec.eq_of_toNat_eq
    rw [ha, hb, hsign, hmag]
  · rintro rfl
    rfl

end FloatBits
end KWayMerge
