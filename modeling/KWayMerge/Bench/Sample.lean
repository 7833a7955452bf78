import KWayMerge.Key.Float

/-!
# Sample data

Pseudo-random values in the unit interval, always the same for the same number of values. The
generator adds a constant to its state, multiplies the state by a mixed copy of itself to twice
the width, and folds the two halves of the product together.
-/

namespace KWayMerge

/-- A way to draw so many values from a source, with the source after that. -/
abbrev Sampler (σ : Type) := σ → Nat → List (FloatBits .single) × σ

/-- The state of the generator. -/
structure SampleSource where
  state : UInt64
deriving DecidableEq, Repr

namespace SampleSource

def start : SampleSource := ⟨0⟩

/-- The next word and the source after it. -/
def next (s : SampleSource) : UInt64 × SampleSource :=
  let state := s.state + 0x2d358dccaa6c78a5
  let product := state.toNat * (state ^^^ 0x8bb84b93962eacc9).toNat
  (product.toUInt64 ^^^ (product >>> 64).toUInt64, ⟨state⟩)

/-- The single-precision pattern of `m / 2 ^ 23`, for `m` below `2 ^ 23`. -/
def fraction (m : Nat) : FloatBits .single :=
  if m = 0 then
    .ofNat 0
  else
    let top := m.log2
    .ofNat ((127 + top - 23) <<< 23 + (m - 1 <<< top) <<< (23 - top))

/-- The next value in the unit interval: the upper 23 of the lower 32 bits, as a fraction. -/
def nextUnit (s : SampleSource) : FloatBits .single × SampleSource :=
  let (word, rest) := s.next
  (fraction (word.toUInt32 >>> 9).toNat, rest)

/-- Puts `n` values behind those drawn before, last first. -/
def drawOnto : (n : Nat) → SampleSource → List (FloatBits .single) →
    List (FloatBits .single) × SampleSource
  | 0, s, drawn => (drawn.reverse, s)
  | n + 1, s, drawn => drawOnto n s.nextUnit.2 (s.nextUnit.1 :: drawn)

def draw : Sampler SampleSource := fun s n => drawOnto n s []

end SampleSource
end KWayMerge
