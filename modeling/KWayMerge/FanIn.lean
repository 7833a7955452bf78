import KWayMerge.Fault

/-!
# Fan-in

The fan-in of a merge is the largest number of runs that one call accepts: two, three or four.
-/

namespace KWayMerge

/-- The number of slots in which a merge accounts for its runs, and so the most runs of one. -/
def slotCount : Nat := 4

/-- A number of runs to merge at once. -/
inductive FanIn where
  | two
  | three
  | four
deriving DecidableEq, Repr

namespace FanIn

/-- The fan-in of a merge that names none. -/
def default : FanIn := .four

def count : FanIn → Nat
  | .two => 2
  | .three => 3
  | .four => 4

/-- The fan-in of this number of runs; any other number is refused. -/
def ofCount : Nat → Except Fault FanIn
  | 2 => .ok .two
  | 3 => .ok .three
  | 4 => .ok .four
  | got => .error (.runCount got slotCount)

/-- The name of a fan-in, as shown among settings. -/
def name : FanIn → String
  | .two => "Two"
  | .three => "Three"
  | .four => "Four"

@[simp] theorem ofCount_count (f : FanIn) : ofCount f.count = .ok f := by
  cases f <;> rfl

theorem two_le_count (f : FanIn) : 2 ≤ f.count := by
  cases f <;> decide

/-- A group of blocks with elements has elements. -/
theorem mul_count_pos (f : FanIn) {len : Nat} (hlen : 0 < len) : 0 < len * f.count :=
  Nat.mul_pos hlen (Nat.lt_of_lt_of_le Nat.zero_lt_two f.two_le_count)

theorem count_le_slotCount (f : FanIn) : f.count ≤ slotCount := by
  cases f <;> decide

end FanIn
end KWayMerge
