import KWayMerge.Comparator

/-!
# Picking heads

A merge repeatedly takes the head of one run. The heads are scanned from the first run to the
last, and a later head replaces the best one so far only if it strictly precedes it, so that of
equal heads the one in the lowest run is taken. `picks` is the sequence of elements taken, each
with the run it came from; everything that a merge reports is read off this sequence.

**Results.** `picks_zero` and `picks_succ` are the recursion equations of `picks`.
-/

namespace KWayMerge

universe u

/-- An element taken from a run, with the number of that run. -/
structure Pick (α : Type u) where
  run : Nat
  value : α
deriving DecidableEq, Repr

/-- When a merge stops before all runs are empty. -/
inductive StopRule where
  | atCapacity
  /-- Also once a run that held elements has been emptied. -/
  | whenRunEnds
deriving DecidableEq, Repr

variable {α : Type u}

/-- The better of the best head so far and the head of run `i`; the former wins unless beaten. -/
def challenge (cmp : Comparator α) (best : Option (Pick α)) (i : Nat) :
    List α → Option (Pick α)
  | [] => best
  | head :: _ =>
      match best with
      | none => some ⟨i, head⟩
      | some champion =>
          if cmp.precedes head champion.value then some ⟨i, head⟩ else some champion

/-- The winner among the best head so far and the heads of the runs numbered from `i`. -/
def scanHeads (cmp : Comparator α) :
    Nat → Option (Pick α) → List (List α) → Option (Pick α)
  | _, best, [] => best
  | i, best, run :: rest => scanHeads cmp (i + 1) (challenge cmp best i run) rest

/-- The head that leaves next; none when all runs are empty. -/
def front? (cmp : Comparator α) (runs : List (List α)) : Option (Pick α) :=
  scanHeads cmp 0 none runs

/-- The runs after the head of run `i` has left. -/
def dropHead (runs : List (List α)) (i : Nat) : List (List α) :=
  runs.modify i List.tail

/-- Whether a merge suspends after an element of run `i` has left and `runs` remain. -/
def StopRule.suspends (stop : StopRule) (runs : List (List α)) (i : Nat) : Bool :=
  match stop with
  | .atCapacity => false
  | .whenRunEnds => (runs.getD i []).isEmpty

/-- Puts at most `capacity` further picks behind those `taken` already, last first. -/
def picksOnto (cmp : Comparator α) (stop : StopRule) :
    (capacity : Nat) → (runs : List (List α)) → (taken : List (Pick α)) → List (Pick α)
  | 0, _, taken => taken.reverse
  | capacity + 1, runs, taken =>
      match front? cmp runs with
      | none => taken.reverse
      | some pick =>
          if stop.suspends (dropHead runs pick.run) pick.run then
            (pick :: taken).reverse
          else
            picksOnto cmp stop capacity (dropHead runs pick.run) (pick :: taken)

/-- The elements that a merge of `runs` takes, in order. -/
def picks (cmp : Comparator α) (stop : StopRule) (capacity : Nat) (runs : List (List α)) :
    List (Pick α) :=
  picksOnto cmp stop capacity runs []

theorem picksOnto_eq (cmp : Comparator α) (stop : StopRule) :
    ∀ (capacity : Nat) (runs : List (List α)) (taken : List (Pick α)),
      picksOnto cmp stop capacity runs taken = taken.reverse ++ picks cmp stop capacity runs
  | 0, _, taken => by simp [picks, picksOnto]
  | capacity + 1, runs, taken => by
      simp only [picks, picksOnto]
      cases front? cmp runs with
      | none => simp
      | some pick =>
          dsimp only
          split
          · simp
          · rw [picksOnto_eq cmp stop capacity _ (pick :: taken),
              picksOnto_eq cmp stop capacity _ [pick]]
            simp

@[simp] theorem picks_zero (cmp : Comparator α) (stop : StopRule) (runs : List (List α)) :
    picks cmp stop 0 runs = [] :=
  rfl

/-- One more unit of capacity takes the front head, and the rest from what remains. -/
theorem picks_succ (cmp : Comparator α) (stop : StopRule) (capacity : Nat)
    (runs : List (List α)) :
    picks cmp stop (capacity + 1) runs =
      match front? cmp runs with
      | none => []
      | some pick =>
          pick ::
            if stop.suspends (dropHead runs pick.run) pick.run then
              []
            else
              picks cmp stop capacity (dropHead runs pick.run) := by
  rw [picks, picksOnto]
  cases front? cmp runs with
  | none => rfl
  | some pick =>
      dsimp only
      split
      · rfl
      · rw [picksOnto_eq]
        rfl

end KWayMerge
