import KWayMerge.Proofs.Merge.Picks

/-!
# The head merge of blocks

The head merge of a list of blocks is said here without a scan: it repeatedly takes, of the first
elements of the blocks that hold any, the one in the lowest block that no other head precedes.
Nothing is asked of the order inside the blocks.

Under a total preorder the picks of a merge are the head merge cut off at the capacity. Merging
some adjacent blocks beforehand does not change the head merge, and neither does cutting blocks
off at a length that bounds what is asked of the result. These two laws hold of unsorted blocks.

**Results.**
* `map_value_picks`: a merge takes the first elements of the head merge.
* `headMerge_append_headMerge_cons`: a group of adjacent blocks may be merged beforehand.
* `take_headMerge_eq_of_map_take_eq`: only the front of each block matters for the front of the
  head merge.
-/

namespace KWayMerge

universe u

variable {α : Type u} {cmp : Comparator α}

/-- The head in the lowest block that no other head precedes, with the number of its block. -/
def leader? (cmp : Comparator α) (blocks : List (List α)) : Option (Pick α) :=
  blocks.zipIdx.findSome? fun
    | ([], _) => none
    | (x :: _, i) =>
        if (heads (blocks.eraseIdx i)).all (fun y => !cmp.precedes y x) then some ⟨i, x⟩ else none

theorem getElem?_of_leader? {blocks : List (List α)} {pick : Pick α}
    (h : leader? cmp blocks = some pick) :
    ∃ rest, blocks[pick.run]? = some (pick.value :: rest) := by
  obtain ⟨⟨block, i⟩, hmem, hblock⟩ := List.exists_of_findSome?_eq_some h
  rw [List.mem_zipIdx_iff_getElem?] at hmem
  cases block with
  | nil => simp at hblock
  | cons x rest =>
      simp only [Option.ite_none_right_eq_some, Option.some.injEq] at hblock
      obtain ⟨-, rfl⟩ := hblock
      exact ⟨rest, hmem⟩

theorem exists_append_of_getElem? {blocks : List (List α)} {block : List α} {i : Nat}
    (h : blocks[i]? = some block) :
    ∃ left right, blocks = left ++ block :: right ∧ left.length = i := by
  induction blocks generalizing i with
  | nil => simp at h
  | cons first blocks ih =>
      cases i with
      | zero =>
          simp only [List.getElem?_cons_zero, Option.some.injEq] at h
          exact ⟨[], blocks, by simp [h], rfl⟩
      | succ i =>
          obtain ⟨left, right, rfl, rfl⟩ := ih (by simpa using h)
          exact ⟨first :: left, right, rfl, rfl⟩

theorem length_flatten_dropHead_lt {blocks : List (List α)} {pick : Pick α}
    (h : leader? cmp blocks = some pick) :
    (dropHead blocks pick.run).flatten.length < blocks.flatten.length := by
  obtain ⟨rest, hrest⟩ := getElem?_of_leader? h
  obtain ⟨left, right, rfl, hleft⟩ := exists_append_of_getElem? hrest
  rw [← hleft, dropHead_append_cons]
  simp only [List.flatten_append, List.flatten_cons, List.length_append, List.length_cons]
  omega

/-- Takes the leader away from the blocks until they are empty. -/
def headMerge (cmp : Comparator α) (blocks : List (List α)) : List α :=
  match _h : leader? cmp blocks with
  | none => []
  | some pick => pick.value :: headMerge cmp (dropHead blocks pick.run)
termination_by blocks.flatten.length
decreasing_by exact length_flatten_dropHead_lt _h

theorem leader?_of_leads [Std.TransCmp cmp] {left right : List (List α)} {x : α} {rest : List α}
    (h : Leads cmp left x right) :
    leader? cmp (left ++ (x :: rest) :: right) = some ⟨left.length, x⟩ := by
  rw [leader?, List.zipIdx_append, List.findSome?_append]
  -- in each block before, the head is preceded by `x`
  have hleft : left.zipIdx.findSome? (fun
      | ([], _) => none
      | (y :: _, i) =>
          if (heads ((left ++ (x :: rest) :: right).eraseIdx i)).all
            (fun z => !cmp.precedes z y) then some (Pick.mk i y) else none) = none := by
    rw [List.findSome?_eq_none_iff]
    rintro ⟨block, i⟩ hmem
    rw [List.mem_zipIdx_iff_getElem?] at hmem
    cases block with
    | nil => rfl
    | cons y tail =>
        obtain ⟨hi, -⟩ := List.getElem?_eq_some_iff.1 hmem
        have hy : cmp.precedes x y = true :=
          h.before y (head_mem_heads (List.mem_of_getElem? hmem))
        dsimp only
        rw [List.eraseIdx_append_of_lt_length hi]
        simp [hy]
  have hothers : (heads ((left ++ (x :: rest) :: right).eraseIdx left.length)).all
      (fun y => !cmp.precedes y x) = true := by
    rw [List.eraseIdx_append_of_length_le (Nat.le_refl _), Nat.sub_self, List.eraseIdx_cons_zero,
      heads_append, List.all_append, Bool.and_eq_true, List.all_eq_true, List.all_eq_true]
    constructor
    · intro y hy
      simp [Comparator.precedes_asymm (h.before y hy)]
    · intro y hy
      simp [h.after y hy]
  rw [hleft, Option.none_or, List.zipIdx_cons, Nat.zero_add]
  simp only [List.findSome?_cons, hothers, if_true]

@[simp] theorem headMerge_of_flatten_eq_nil {blocks : List (List α)} (h : blocks.flatten = []) :
    headMerge cmp blocks = [] := by
  rw [headMerge]
  split
  · rfl
  · next pick hpick =>
      have := length_flatten_dropHead_lt hpick
      simp [h] at this

/-- **The leading head comes first, and then the head merge of what remains.** -/
theorem headMerge_of_leads [Std.TransCmp cmp] {left right : List (List α)} {x : α}
    {rest : List α} (h : Leads cmp left x right) :
    headMerge cmp (left ++ (x :: rest) :: right) =
      x :: headMerge cmp (left ++ rest :: right) := by
  have hleader : leader? cmp (left ++ (x :: rest) :: right) = some ⟨left.length, x⟩ :=
    leader?_of_leads h
  rw [headMerge]
  split
  · next hnone => simp [hleader] at hnone
  · next pick hpick =>
      rw [hleader, Option.some.injEq] at hpick
      subst hpick
      rw [dropHead_append_cons]

/--
Induction along a merge: a property of blocks holds if it holds when all are empty, and if it
holds before a leading head leaves whenever it holds afterwards.
-/
theorem leads_induction (cmp : Comparator α) [Std.TransCmp cmp] {motive : List (List α) → Prop}
    (empty : ∀ blocks, blocks.flatten = [] → motive blocks)
    (leads : ∀ left x rest right, Leads cmp left x right →
      motive (left ++ rest :: right) → motive (left ++ (x :: rest) :: right))
    (blocks : List (List α)) : motive blocks := by
  induction hn : blocks.flatten.length using Nat.strongRecOn generalizing blocks with
  | ind n ih =>
    by_cases hempty : blocks.flatten = []
    · exact empty blocks hempty
    · obtain ⟨left, x, rest, right, rfl, hleads⟩ := exists_leads cmp hempty
      refine leads left x rest right hleads (ih _ ?_ _ rfl)
      simp only [List.flatten_append, List.flatten_cons, List.length_append,
        List.length_cons] at hn ⊢
      omega

section Laws

variable [Std.TransCmp cmp]

/-- **A merge takes the first elements of the head merge.** -/
theorem map_value_picks (capacity : Nat) (runs : List (List α)) :
    (picks cmp .atCapacity capacity runs).map Pick.value =
      (headMerge cmp runs).take capacity := by
  induction capacity generalizing runs with
  | zero => simp
  | succ capacity ih =>
      by_cases hempty : runs.flatten = []
      · simp [picks_atCapacity_succ, front?_eq_none_iff.2 hempty, hempty]
      · obtain ⟨left, x, rest, right, rfl, hleads⟩ := exists_leads cmp hempty
        rw [picks_atCapacity_succ, front?_of_leads hleads, headMerge_of_leads hleads]
        simp [dropHead_append_cons, ih]

theorem length_headMerge (blocks : List (List α)) :
    (headMerge cmp blocks).length = blocks.flatten.length := by
  induction blocks using leads_induction cmp with
  | empty blocks h => simp [h]
  | leads left x rest right hleads ih =>
      rw [headMerge_of_leads hleads, List.length_cons, ih]
      simp only [List.flatten_append, List.flatten_cons, List.length_append, List.length_cons]
      omega

@[simp] theorem headMerge_singleton (block : List α) : headMerge cmp [block] = block := by
  induction block with
  | nil => exact headMerge_of_flatten_eq_nil rfl
  | cons x rest ih =>
      have hleads : Leads cmp [] x [] := ⟨by simp, by simp⟩
      exact (headMerge_of_leads hleads).trans (by rw [List.nil_append, ih])

theorem heads_headMerge_subset (group : List (List α)) :
    heads [headMerge cmp group] ⊆ heads group := by
  by_cases hempty : group.flatten = []
  · simp [hempty]
  · obtain ⟨left, x, rest, right, rfl, hleads⟩ := exists_leads cmp hempty
    rw [headMerge_of_leads hleads]
    simp

omit [Std.TransCmp cmp] in
theorem append_cons_eq_append {before after left right : List (List α)} {block : List α}
    (h : before ++ block :: after = left ++ right) :
    (∃ mid, left = before ++ block :: mid ∧ after = mid ++ right) ∨
      ∃ mid, before = left ++ mid ∧ right = mid ++ block :: after := by
  rcases List.append_eq_append_iff.1 h with ⟨mid, hleft, hblock⟩ | ⟨mid, hbefore, hright⟩
  · rcases List.cons_eq_append_iff.1 hblock with ⟨rfl, rfl⟩ | ⟨mid, rfl, rfl⟩
    · exact Or.inr ⟨[], by simpa using hleft.symm, rfl⟩
    · exact Or.inl ⟨mid, hleft, rfl⟩
  · exact Or.inr ⟨mid, hbefore, hright⟩

/-- Merging a group beforehand brings up no head that was not there. -/
theorem heads_append_headMerge_cons_subset (left group right : List (List α)) :
    heads (left ++ headMerge cmp group :: right) ⊆ heads (left ++ group ++ right) := by
  have hgroup : heads [headMerge cmp group] ⊆ heads group := heads_headMerge_subset group
  have hcons : heads (headMerge cmp group :: right) =
      heads [headMerge cmp group] ++ heads right := heads_append [_] right
  rw [heads_append, hcons, heads_append, heads_append]
  intro y hy
  simp only [List.mem_append] at hy ⊢
  rcases hy with hy | hy | hy
  · exact Or.inl (Or.inl hy)
  · exact Or.inl (Or.inr (hgroup hy))
  · exact Or.inr hy

/-- **A group of adjacent blocks may be merged beforehand.** -/
theorem headMerge_append_headMerge_cons (left group right : List (List α)) :
    headMerge cmp (left ++ headMerge cmp group :: right) =
      headMerge cmp (left ++ group ++ right) := by
  generalize hall : left ++ group ++ right = blocks
  induction blocks using leads_induction cmp generalizing left group right with
  | empty blocks h =>
      subst hall
      simp only [List.flatten_append, List.append_eq_nil_iff] at h
      obtain ⟨⟨hleft, hgroup⟩, hright⟩ := h
      rw [headMerge_of_flatten_eq_nil hgroup, headMerge_of_flatten_eq_nil (by simp [hleft, hright]),
        headMerge_of_flatten_eq_nil (by simp [hleft, hgroup, hright])]
  | leads before x rest after hleads ih =>
      rw [headMerge_of_leads hleads]
      -- the leading head stands before the group, in it, or after it
      rcases append_cons_eq_append hall.symm with ⟨mid, hinit, rfl⟩ | ⟨mid, rfl, rfl⟩
      · rcases append_cons_eq_append hinit.symm with ⟨mid, rfl, rfl⟩ | ⟨mid', rfl, rfl⟩
        · have hleads' : Leads cmp before x (mid ++ headMerge cmp group :: right) :=
            hleads.mono (List.Subset.refl _) (heads_append_headMerge_cons_subset mid group right)
          rw [List.append_assoc, List.cons_append, headMerge_of_leads hleads',
            ← ih (before ++ rest :: mid) group right (by simp)]
          simp
        · have hgroup : Leads cmp mid' x mid := hleads.mono (by simp) (by simp)
          have hleads' : Leads cmp left x right := hleads.mono (by simp) (by simp)
          rw [headMerge_of_leads hgroup, headMerge_of_leads hleads',
            ← ih left (mid' ++ rest :: mid) right (by simp)]
      · have hleads' : Leads cmp (left ++ headMerge cmp group :: mid) x after :=
          hleads.mono (heads_append_headMerge_cons_subset left group mid) (List.Subset.refl _)
        rw [← List.cons_append, ← List.append_assoc, headMerge_of_leads hleads',
          ← ih left group (mid ++ rest :: after) (by simp)]
        simp

/-- All groups of adjacent blocks may be merged beforehand. -/
theorem headMerge_append_map_headMerge (left : List (List α)) (groups : List (List (List α))) :
    headMerge cmp (left ++ groups.map (headMerge cmp)) =
      headMerge cmp (left ++ groups.flatten) := by
  induction groups generalizing left with
  | nil => rfl
  | cons group groups ih =>
      rw [List.map_cons, headMerge_append_headMerge_cons, ih, List.flatten_cons,
        List.append_assoc]

/-- **Only the front of each block matters for the front of the head merge.** -/
theorem take_headMerge_eq_of_map_take_eq {k : Nat} {blocks others : List (List α)}
    (h : blocks.map (List.take k) = others.map (List.take k)) :
    (headMerge cmp blocks).take k = (headMerge cmp others).take k := by
  rw [← map_value_picks, ← map_value_picks, picks_eq_of_map_take_eq h]

end Laws
end KWayMerge
