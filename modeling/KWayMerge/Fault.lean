/-!
# What can go wrong in a merge

Each way in which an operation refuses its input is one constructor that carries what the
refusal reports. The wording is in `Fault.message`.
-/

namespace KWayMerge

/-- Why a merge operation refused its input. -/
inductive Fault where
  /-- A merge of `got` runs, where between two and `most` are possible. -/
  | runCount (got most : Nat)
  /-- A merge that may not put out anything. -/
  | noCapacity
  | emptyBlocks
  /-- A selection over more elements than the buffer holds. -/
  | shortBuffer (total buffer : Nat)
  /-- A run with an inversion, at its first. -/
  | disorderedRun (run index : Nat)
  /-- Consumption of more than remains of a run. -/
  | overrun (run consumed remaining : Nat)
  /-- More elements than there are positions to tag them with. -/
  | tooManyPlaces (count : Nat)
  /-- Elements that do not divide into rows of one length. -/
  | unevenRows (count rowLen : Nat)
deriving DecidableEq, Repr

namespace Fault

def message : Fault → String
  | .runCount got most =>
      "merge needs between 2 and " ++ toString most ++ " input runs, got " ++ toString got
  | .noCapacity => "merge capacity must be at least 1"
  | .emptyBlocks => "block length must be at least 1"
  | .shortBuffer total buffer =>
      "total length " ++ toString total ++ " exceeds buffer length " ++ toString buffer
  | .disorderedRun run index =>
      "run " ++ toString run ++ " is out of order at index " ++ toString index
  | .overrun run consumed remaining =>
      "run " ++ toString run ++ " reported " ++ toString consumed ++
        " consumed elements but only " ++ toString remaining ++ " remain"
  | .tooManyPlaces count =>
      "cannot index " ++ toString count ++ " elements with u32 positions"
  | .unevenRows count rowLen =>
      "buffer of " ++ toString count ++ " elements does not split into rows of " ++
        toString rowLen

end Fault
end KWayMerge
