import KWayMerge.Comparator

/-!
# Merge keys and directions

A key type carries one ascending order of its values. A direction turns it into a comparator:
smallest first, or largest first. `Direction` is also read from and written as text, on the
command line and in settings files.
-/

namespace KWayMerge

universe u

/-- A type whose values have an ascending order. -/
class MergeKey (α : Type u) where
  order : α → α → Ordering

/-- Which end of the ascending order comes first. -/
inductive Direction where
  /-- Smallest first. -/
  | ascending
  /-- Largest first, so that a top-k selection picks the largest. -/
  | descending
deriving DecidableEq, Repr

namespace Direction

/-- The direction of a selection that names none. -/
def default : Direction := .descending

variable {α : Type u}

/-- The order of a key type seen from this end. -/
def comparator [MergeKey α] : Direction → Comparator α
  | .ascending => fun a b => MergeKey.order a b
  | .descending => fun a b => MergeKey.order b a

/-- The written name of a direction. -/
def name : Direction → String
  | .ascending => "ascending"
  | .descending => "descending"

/-- The direction with exactly this name. -/
def ofName? : String → Option Direction
  | "ascending" => some .ascending
  | "descending" => some .descending
  | _ => none

/-- The lower case of the ASCII letters, all else kept. -/
def asciiLower (text : String) : String :=
  text.map Char.toLower

/--
A direction named on the command line: full or short name in any mixture of ASCII cases.
An unknown name is handed back in lower case.
-/
def ofText (text : String) : Except String Direction :=
  match asciiLower text with
  | "ascending" | "asc" => .ok .ascending
  | "descending" | "desc" => .ok .descending
  | other => .error other

/-- What is said of a name that `ofText` refuses. -/
def unknownMessage (name : String) : String :=
  "unknown sort order: " ++ name

@[simp] theorem ofName?_name (d : Direction) : ofName? d.name = some d := by
  cases d <;> rfl

end Direction
end KWayMerge
