import KWayMerge.Key.Basic
import KWayMerge.Merge.Basic

/-!
# Settings

The settings of a selection are its direction, the length of the blocks that it sorts first, and
its fan-in. Settings that a program makes are valid only if the blocks hold elements.
-/

namespace KWayMerge

/-- How a selection is to be carried out. -/
structure Settings where
  direction : Direction
  baseBlock : Nat
  fanIn : FanIn
deriving DecidableEq, Repr

namespace Settings

/-- The settings of a selection that names none. -/
def default : Settings := ⟨.default, 32, .default⟩

def validate (s : Settings) : Except Fault Unit :=
  if s.baseBlock = 0 then .error .emptyBlocks else .ok ()

def merger {α : Type} [MergeKey α] (s : Settings) : RunMerger α :=
  ⟨s.direction.comparator, s.fanIn⟩

/-- The settings as one line of text. -/
def summary (s : Settings) : String :=
  let order := match s.direction with
    | .ascending => "Ascending"
    | .descending => "Descending"
  "EngineConfig \x7b order: " ++ order ++ ", base_block: " ++ toString s.baseBlock ++
    ", max_arity: " ++ s.fanIn.name ++ " \x7d"

end Settings
end KWayMerge
