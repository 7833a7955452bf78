import KWayMerge.Key.Basic

/-!
# Fixed-width integers

An integer of a given width is a word of bits, read without sign or in two's complement. Its
ascending order is the order of the integers read.
-/

namespace KWayMerge

/-- How the bits of an integer are read. -/
inductive Signedness where
  | unsigned
  | signed
deriving DecidableEq, Repr

/-- An integer of `width` bits. -/
structure FixedInt (sign : Signedness) (width : Nat) where
  bits : BitVec width
deriving DecidableEq

namespace FixedInt

variable {sign : Signedness} {width : Nat}

/-- The integer that the bits stand for. -/
def toInt (x : FixedInt sign width) : Int :=
  match sign with
  | .unsigned => x.bits.toNat
  | .signed => x.bits.toInt

/-- The integer of this width that agrees with `value` modulo a power of two. -/
def ofInt (value : Int) : FixedInt sign width :=
  ⟨BitVec.ofInt width value⟩

instance : MergeKey (FixedInt sign width) where
  order a b := compare a.toInt b.toInt

/-- The bits are determined by the integer they stand for. -/
theorem toInt_inj {a b : FixedInt sign width} : a.toInt = b.toInt ↔ a = b := by
  obtain ⟨a⟩ := a
  obtain ⟨b⟩ := b
  cases sign with
  | unsigned =>
      simp only [toInt, mk.injEq]
      rw [Int.ofNat_inj, BitVec.toNat_inj]
  | signed =>
      simp only [toInt, mk.injEq]
      exact BitVec.toInt_inj

end FixedInt
end KWayMerge
