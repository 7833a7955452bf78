import KWayMerge.Number.Binary64

/-!
# Decimal texts of magnitudes

A magnitude is written without an exponent, either with the fewest digits that read back as the
same magnitude, or with a fixed number of places. All arithmetic is exact.

Fewest digits: the decimals with a last digit of weight `10 ^ p` form a grid. A decimal reads
back as the magnitude if it lies in the interval of numbers that round to it, whose ends count
when the mantissa is even. The coarsest grid with such a decimal wins; of two neighbours on it
the nearer is written, and the larger if both are as near.
-/

namespace KWayMerge

/-- The number `digits * 10 ^ exponent`. -/
structure Decimal where
  digits : Nat
  exponent : Int
deriving DecidableEq, Repr

namespace Decimal

/-- So many digits, with zeros in front. -/
def padded (width n : Nat) : String :=
  let text := toString n
  String.ofList (List.replicate (width - text.length) '0') ++ text

/-- All digits of a decimal, with a point only if digits follow it. -/
def positional (d : Decimal) : String :=
  if 0 ≤ d.exponent then
    toString (d.digits * tenTo d.exponent.toNat)
  else
    let places := (-d.exponent).toNat
    toString (d.digits / tenTo places) ++ "." ++ padded places (d.digits % tenTo places)

end Decimal

namespace Binary64

/-- `m * 2 ^ e` divided by `10 ^ p`, as a quotient. -/
def overPowerOfTen (m : Nat) (e p : Int) : Nat × Nat :=
  (m <<< e.toNat * tenTo (-p).toNat, 1 <<< (-e).toNat * tenTo p.toNat)

/-- A power of ten above the magnitude, and not far above. -/
def powerAbove (m : Nat) (e : Int) : Int :=
  let (n, d) := overPowerOfTen m e 0
  if d ≤ n then
    (toString (n / d)).length
  else
    1 - ((toString (d / n)).length : Int)

/-- The nearest number of units of `10 ^ p` that reads back as the magnitude, if one does. -/
def unitsReadingBack? (m : Nat) (e p : Int) : Option Nat :=
  -- quarters of the last bit, so that the ends of the interval are integers
  let lowGap := if m = mantissaBound / 2 ∧ minExponent < e then 1 else 2
  let (value, unit) := overPowerOfTen (4 * m) (e - 2) p
  let (low, _) := overPowerOfTen (4 * m - lowGap) (e - 2) p
  let (high, _) := overPowerOfTen (4 * m + 2) (e - 2) p
  let readsBack (k : Nat) : Bool :=
    if m % 2 = 0 then
      decide (low ≤ k * unit ∧ k * unit ≤ high)
    else
      decide (low < k * unit ∧ k * unit < high)
  let below := value / unit
  let above := below + 1
  match readsBack below, readsBack above with
  | false, false => none
  | true, false => some below
  | false, true => some above
  | true, true =>
      if value - below * unit < above * unit - value then some below else some above

/-- Looks for the coarsest grid from `10 ^ p` downward, on so many grids. -/
def shortestFrom (m : Nat) (e : Int) : (grids : Nat) → (p : Int) → Decimal
  | 0, p =>
      let (value, unit) := overPowerOfTen m e p
      ⟨roundHalfEven value unit, p⟩
  | grids + 1, p =>
      match unitsReadingBack? m e p with
      | some units => ⟨units, p⟩
      | none => shortestFrom m e grids (p - 1)

/-- The decimal with the fewest digits that reads back; seventeen digits always do. -/
def shortest (m : Nat) (e : Int) : Decimal :=
  if m = 0 then ⟨0, 0⟩ else shortestFrom m e 18 (powerAbove m e)

/-- A magnitude with the fewest digits that read back. -/
def shortestText : Binary64 → String
  | .finite m e => (shortest m e).positional
  | .infinite => "inf"
  | .notANumber => "NaN"

/-- A magnitude with one decimal place, rounded from its exact value. -/
def onePlaceText : Binary64 → String
  | .finite m e =>
      let (value, unit) := overPowerOfTen m e (-1)
      (Decimal.mk (roundHalfEven value unit) (-1)).positional
  | .infinite => "inf"
  | .notANumber => "NaN"

end Binary64
end KWayMerge
