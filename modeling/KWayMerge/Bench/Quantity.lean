import KWayMerge.Number.Decimal

/-!
# Sizes and times for people

A size is given in the largest of bytes, KiB, MiB and GiB of which it is not less than one, with
all its digits. A time is given per repetition in ns, us, ms or s with one decimal place.
-/

namespace KWayMerge

/-- Divides by `step` while the quantity is not below it and larger units are left. -/
def inUnits (step : Nat) (render : Binary64 → String) :
    Binary64 → String → List String → String
  | quantity, unit, [] => render quantity ++ unit
  | quantity, unit, larger :: others =>
      if quantity.ltNat step then
        render quantity ++ unit
      else
        inUnits step render (quantity.div (.ofNat step)) larger others

/-- A number of bytes in the largest fitting unit. -/
def sizeText (bytes : Nat) : String :=
  if bytes < 1024 then
    toString bytes ++ "B"
  else
    inUnits 1024 Binary64.shortestText ((Binary64.ofNat bytes).div (.ofNat 1024)) "KiB"
      ["MiB", "GiB"]

/-- The time of one of `repeats` repetitions that took so many nanoseconds together. -/
def timeText (repeats nanoseconds : Nat) : String :=
  inUnits 1000 Binary64.onePlaceText ((Binary64.ofNat nanoseconds).div (.ofNat repeats)) "ns"
    ["us", "ms", "s"]

end KWayMerge
