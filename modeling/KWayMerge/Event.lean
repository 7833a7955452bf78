import KWayMerge.Log.Record

/-!
# Events of a selection

While it works, a selection reports what it is about to do: the rounds it merges, the blocks it
folds, and a request that it cut down. An event holds numbers only; `Event.record` gives it a
level, a place and a wording.
-/

namespace KWayMerge

/-- What a selection reports while it works. -/
inductive Event where
  /-- More elements were asked for than there are. -/
  | clamped (requested available : Nat)
  | plannedRound (index blockLen groups capacity : Nat)
  /-- The blocks that formed no group are about to be folded. -/
  | foldingRemainder (tail : List Nat)
  /-- A block has been folded: what was taken from the front and from the block, and left. -/
  | fold (offset fromFront fromBlock dropped : Nat)
  | coarsening (blockLen groups : Nat)
  | rowSelection (rows rowLen k : Nat)
deriving DecidableEq, Repr

namespace Event

/-- A list of numbers between brackets. -/
def bracketed (xs : List Nat) : String :=
  "[" ++ ", ".intercalate (xs.map toString) ++ "]"

/-- The name under which the program reports. -/
def program : String := "bounded_merge"

/-- The part of the program that reports an event. -/
def part : Event → String
  | .clamped .. | .plannedRound .. | .foldingRemainder .. | .fold .. => "driver"
  | .coarsening .. => "block_merge"
  | .rowSelection .. => "indexed"

/-- Single folds are traced; everything else is for debugging. -/
def level : Event → LogLevel
  | .fold .. => .trace
  | _ => .debug

def message : Event → String
  | .clamped .. => "k exceeds input length"
  | .plannedRound .. => "merge round"
  | .foldingRemainder .. => "folding remainder"
  | .fold .. => "fold"
  | .coarsening .. => "block merge round"
  | .rowSelection .. => "row top-k"

/-- The numbers of an event under their names. -/
def fields : Event → List (String × LogValue)
  | .clamped requested available =>
      [("requested", .count requested), ("clamped", .count available)]
  | .plannedRound index blockLen groups capacity =>
      [("round", .count index), ("block_len", .count blockLen), ("groups", .count groups),
        ("capacity", .count capacity)]
  | .foldingRemainder tail => [("tail", .text (bracketed tail))]
  | .fold offset fromFront fromBlock dropped =>
      [("offset", .count offset), ("from_acc", .count fromFront),
        ("from_block", .count fromBlock), ("dropped", .count dropped)]
  | .coarsening blockLen groups => [("block_len", .count blockLen), ("groups", .count groups)]
  | .rowSelection rows rowLen k =>
      [("rows", .count rows), ("row_len", .count rowLen), ("k", .count k)]

/-- An event as a log record. -/
def record (e : Event) : LogRecord :=
  ⟨e.level, program ++ "::" ++ e.part, e.message, e.fields⟩

end Event
end KWayMerge
