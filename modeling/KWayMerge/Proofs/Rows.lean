import KWayMerge.Proofs.Ranking

/-!
# Ranking the rows of a table

A table is a list of values that divides into rows of one length. Each row is ranked on its own,
with places counted from the beginning of the row, and nothing is handed from one row to another.
So the rows can be ranked at the same time. When the answers are collected, the values stand in the
order of the rows; a fault may be that of any row that has one, but the rows have the same length
and the same settings, and so the same fault.

**Results.**
* `chunks_eq_map_tableRow`: the rows of a table in closed form.
* `result_rankRows`: the winners of all rows.
* `ranksRows_iff`: which row reports first makes no difference.
* `rankRows_ranks_rows_alone`: what is refused, what the winners are, and that the winners of a row
  depend on nothing but the row.
-/

namespace KWayMerge

variable {α : Type}

/-! ### The rows of a table -/

section Rows

/-- Row number `r` of a table. -/
def tableRow (values : List α) (rowLen r : Nat) : List α :=
  (values.drop (r * rowLen)).take rowLen

variable {values : List α} {rowLen : Nat}

theorem uneven_iff : (rowLen = 0 ∨ values.length % rowLen ≠ 0) ↔
    (rowLen = 0 ∨ ¬ rowLen ∣ values.length) := by
  rw [Nat.dvd_iff_mod_eq_zero]

theorem not_uneven_iff : ¬ (rowLen = 0 ∨ ¬ rowLen ∣ values.length) ↔
    0 < rowLen ∧ rowLen ∣ values.length := by
  rw [not_or, not_not, Nat.pos_iff_ne_zero]

theorem length_tableRow (hdvd : rowLen ∣ values.length) {r : Nat}
    (hr : r < values.length / rowLen) : (tableRow values rowLen r).length = rowLen := by
  have hend : (r + 1) * rowLen ≤ values.length := by
    rw [← Nat.div_mul_cancel hdvd]
    exact Nat.mul_le_mul_right rowLen hr
  rw [Nat.succ_mul] at hend
  rw [tableRow, List.length_take, List.length_drop]
  omega

/-- The entries of a row are those of the table from its beginning on. -/
theorem getElem?_tableRow {r i : Nat} (hi : i < rowLen) :
    (tableRow values rowLen r)[i]? = values[r * rowLen + i]? := by
  rw [tableRow, List.getElem?_take_of_lt hi, List.getElem?_drop]

/-- **The chunks of a table are its rows.** -/
theorem chunks_eq_map_tableRow (hrow : 0 < rowLen) (hdvd : rowLen ∣ values.length) :
    chunks rowLen values =
      (List.range (values.length / rowLen)).map (tableRow values rowLen) := by
  refine List.ext_getElem? ?_
  intro r
  have hlt : rowLen * r < values.length ↔ r < values.length / rowLen := by
    rw [Nat.lt_div_iff_mul_lt_of_dvd hrow.ne' hdvd, Nat.mul_comm]
  rw [getElem?_chunks hrow, List.getElem?_map]
  by_cases h : r < values.length / rowLen
  · rw [if_pos (hlt.2 h), List.getElem?_range h, Option.map_some, tableRow, Nat.mul_comm]
  · rw [if_neg (mt hlt.1 h), List.getElem?_eq_none (by simpa using h), Option.map_none]

end Rows

/-! ### Collecting answers -/

section Collecting

variable {β : Type}

/--
What may come of answers that are collected from workers: all values, in the order of the tasks, or
the fault of any task that ended with one.
-/
inductive Collects : List (Except Fault β) → Except Fault (List β) → Prop
  | values (xs : List β) : Collects (xs.map .ok) (.ok xs)
  | fault {answers : List (Except Fault β)} {fault : Fault}
      (h : .error fault ∈ answers) : Collects answers (.error fault)

theorem collects_map_ok_iff {xs : List β} {answer : Except Fault (List β)} :
    Collects (xs.map .ok) answer ↔ answer = .ok xs := by
  constructor
  · intro h
    generalize hanswers : xs.map Except.ok = answers at h
    cases h with
    | values ys =>
        have hinj : Function.Injective (Except.ok : β → Except Fault β) := fun _ _ => Except.ok.inj
        rw [List.map_injective_iff.2 hinj hanswers]
    | fault h =>
        rw [← hanswers] at h
        simp at h
  · rintro rfl
    exact .values xs

/-- Where all tasks end with one fault, it does not matter which of them is heard first. -/
theorem collects_fault_iff {answers : List (Except Fault β)} {fault : Fault}
    (hne : answers ≠ []) (hall : ∀ answer ∈ answers, answer = .error fault)
    {answer : Except Fault (List β)} :
    Collects answers answer ↔ answer = .error fault := by
  obtain ⟨first, hfirst⟩ := List.exists_mem_of_ne_nil answers hne
  have hfault : .error fault ∈ answers := hall first hfirst ▸ hfirst
  constructor
  · intro h
    cases h with
    | values xs => simp at hfault
    | fault h => rw [Except.error.inj (hall _ h)]
  · rintro rfl
    exact .fault hfault

end Collecting

/-! ### What the winners are -/

section Winners

/-- The winners of the rows of a table, with places in the rows. -/
structure RowsRanked (cmp : Comparator α) (values : List α) (rowLen k : Nat)
    (winners : List (Winners α)) : Prop where
  length_eq : winners.length = values.length / rowLen
  firstOf : ∀ (r : Nat) (hr : r < winners.length),
    winners[r].FirstOf cmp (tableRow values rowLen r) k
  length_values : ∀ w ∈ winners, w.values.length = min k rowLen
  length_places : ∀ w ∈ winners, w.places.length = min k rowLen
  place_lt : ∀ w ∈ winners, ∀ place ∈ w.places, place < rowLen
  value_at : ∀ (r : Nat) (hr : r < winners.length) (j : Nat) (hv : j < winners[r].values.length)
    (hp : j < winners[r].places.length),
    values[r * rowLen + winners[r].places[j]]? = some winners[r].values[j]

/-- What is known of the winners of each row is known of the whole. -/
theorem rowsRanked_of_firstOf {cmp : Comparator α} {values : List α} {rowLen k : Nat}
    (hdvd : rowLen ∣ values.length)
    {winners : List (Winners α)} (hlength : winners.length = values.length / rowLen)
    (hfirst : ∀ (r : Nat) (hr : r < winners.length),
      winners[r].FirstOf cmp (tableRow values rowLen r) k) :
    RowsRanked cmp values rowLen k winners := by
  have hrow : ∀ r < winners.length, (tableRow values rowLen r).length = rowLen :=
    fun r hr => length_tableRow hdvd (hlength ▸ hr)
  have hplace : ∀ w ∈ winners, ∀ place ∈ w.places, place < rowLen := by
    intro w hw place hplace
    obtain ⟨r, hr, rfl⟩ := List.mem_iff_getElem.1 hw
    exact ((hfirst r hr).place_lt place hplace).trans_eq (hrow r hr)
  refine ⟨hlength, hfirst, ?_, ?_, hplace, ?_⟩
  · intro w hw
    obtain ⟨r, hr, rfl⟩ := List.mem_iff_getElem.1 hw
    rw [(hfirst r hr).length_values, hrow r hr]
  · intro w hw
    obtain ⟨r, hr, rfl⟩ := List.mem_iff_getElem.1 hw
    rw [(hfirst r hr).length_places, hrow r hr]
  · intro r hr j hv hp
    rw [← getElem?_tableRow (hplace _ (List.getElem_mem hr) _ (List.getElem_mem hp))]
    exact (hfirst r hr).value_at j hv hp

end Winners

/-! ### All rows at the same time -/

section Ranking

variable [MergeKey α]

/-- The answers that ranking the rows of a table at the same time may give. -/
def Settings.RanksRows (s : Settings) (values : List α) (rowLen k : Nat)
    (answer : Except Fault (List (Winners α))) : Prop :=
  if rowLen = 0 ∨ values.length % rowLen ≠ 0 then
    answer = .error (.unevenRows values.length rowLen)
  else
    Collects ((chunks rowLen values).map fun row => (s.rank row k).result) answer

variable (s : Settings) {values : List α} {rowLen : Nat} (k : Nat)

theorem result_rankRows_of_uneven (h : rowLen = 0 ∨ ¬ rowLen ∣ values.length) :
    (s.rankRows values rowLen k).result = .error (.unevenRows values.length rowLen) := by
  rw [Settings.rankRows, if_pos (uneven_iff.2 h)]

theorem result_rankRows_of_even (hrow : 0 < rowLen) (hdvd : rowLen ∣ values.length) :
    (s.rankRows values rowLen k).result =
      (chunks rowLen values).mapM fun row => (s.rank row k).result := by
  rw [Settings.rankRows, if_neg]
  rw [uneven_iff, not_uneven_iff]
  exact ⟨hrow, hdvd⟩

/-- A ranking whose base blocks hold no elements is refused, whatever there is to rank. -/
theorem result_rank_of_empty_blocks (hbase : s.baseBlock = 0) (row : List α) :
    (s.rank row k).result = .error .emptyBlocks := by
  have hinvalid : s.validate = .error .emptyBlocks := by
    rw [Settings.validate, if_pos hbase]
  rw [Settings.rank, hinvalid]

theorem result_rankRows_of_empty_blocks (hrow : 0 < rowLen) (hdvd : rowLen ∣ values.length)
    (hbase : s.baseBlock = 0) (hne : values ≠ []) :
    (s.rankRows values rowLen k).result = .error .emptyBlocks := by
  rw [result_rankRows_of_even s k hrow hdvd, chunks_of_ne_nil hrow hne, List.mapM_cons,
    result_rank_of_empty_blocks s k hbase]
  rfl

/-- The winners of a row. -/
def Settings.rowWinners (row : List α) : Winners α :=
  Winners.ofPlaced
    ((s.direction.comparator.stableSort (Placed.ofList row)).take (min k row.length))

/-- The winners of a row that two tables have in common, wherever they have it. -/
theorem getElem?_rowWinners {other : List α} {r r' : Nat}
    (hr : r < values.length / rowLen) (hr' : r' < other.length / rowLen)
    (hsame : tableRow other rowLen r' = tableRow values rowLen r) :
    ((List.range (other.length / rowLen)).map fun r =>
        s.rowWinners k (tableRow other rowLen r))[r']? =
      ((List.range (values.length / rowLen)).map fun r =>
        s.rowWinners k (tableRow values rowLen r))[r]? := by
  rw [List.getElem?_map, List.getElem?_map, List.getElem?_range hr, List.getElem?_range hr',
    Option.map_some, Option.map_some, hsame]

variable [Std.TransCmp (MergeKey.order (α := α))]

/-- **The winners of all rows, in the order of the rows.** -/
theorem result_rankRows (hbase : 0 < s.baseBlock) (hrow : 0 < rowLen)
    (hdvd : rowLen ∣ values.length) (hplaces : rowLen ≤ placeCount) :
    (s.rankRows values rowLen k).result =
      .ok ((List.range (values.length / rowLen)).map fun r =>
        s.rowWinners k (tableRow values rowLen r)) := by
  have hrank : ∀ row ∈ chunks rowLen values,
      (s.rank row k).result = .ok (s.rowWinners k row) := by
    intro row hmem
    exact result_rank s hbase ((length_of_mem_chunks hrow hmem).2.trans hplaces) k
  rw [result_rankRows_of_even s k hrow hdvd, mapM_eq_ok hrank, chunks_eq_map_tableRow hrow hdvd,
    List.map_map]
  rfl

/-- **A list is refused as uneven exactly if it does not divide into rows.** -/
theorem result_rankRows_eq_uneven_iff (hplaces : rowLen ≤ placeCount) :
    (s.rankRows values rowLen k).result = .error (.unevenRows values.length rowLen) ↔
      rowLen = 0 ∨ ¬ rowLen ∣ values.length := by
  constructor
  · intro h
    by_contra huneven
    obtain ⟨hrow, hdvd⟩ := not_uneven_iff.1 huneven
    rcases Nat.eq_zero_or_pos s.baseBlock with hbase | hbase
    · by_cases hne : values = []
      · rw [result_rankRows_of_even s k hrow hdvd, hne, chunks_nil] at h
        cases h
      · rw [result_rankRows_of_empty_blocks s k hrow hdvd hbase hne] at h
        cases h
    · rw [result_rankRows s k hbase hrow hdvd hplaces] at h
      cases h
  · exact result_rankRows_of_uneven s k

/-- **Which row is heard first makes no difference.** -/
theorem ranksRows_iff (hplaces : rowLen ≤ placeCount)
    {answer : Except Fault (List (Winners α))} :
    s.RanksRows values rowLen k answer ↔ answer = (s.rankRows values rowLen k).result := by
  rw [Settings.RanksRows]
  by_cases huneven : rowLen = 0 ∨ values.length % rowLen ≠ 0
  · rw [if_pos huneven, result_rankRows_of_uneven s k (uneven_iff.1 huneven)]
  · rw [if_neg huneven]
    rw [uneven_iff, not_uneven_iff] at huneven
    obtain ⟨hrow, hdvd⟩ := huneven
    rcases Nat.eq_zero_or_pos s.baseBlock with hbase | hbase
    · by_cases hne : values = []
      · subst hne
        rw [result_rankRows_of_even s k hrow hdvd, chunks_nil]
        have hnone : Collects (([] : List (Winners α)).map Except.ok) answer ↔ answer = .ok [] :=
          collects_map_ok_iff
        exact hnone
      · rw [result_rankRows_of_empty_blocks s k hrow hdvd hbase hne]
        refine collects_fault_iff ?_ ?_
        · rw [chunks_of_ne_nil hrow hne]
          exact List.cons_ne_nil _ _
        · rw [List.forall_mem_map]
          exact fun row _ => result_rank_of_empty_blocks s k hbase row
    · have hrank : (chunks rowLen values).map (fun row => (s.rank row k).result) =
          ((List.range (values.length / rowLen)).map fun r =>
            s.rowWinners k (tableRow values rowLen r)).map .ok := by
        rw [chunks_eq_map_tableRow hrow hdvd, List.map_map, List.map_map]
        refine List.map_congr_left ?_
        intro r hr
        have hlength := length_tableRow hdvd (List.mem_range.1 hr)
        exact result_rank s hbase (hlength.trans_le hplaces) k
      rw [hrank, result_rankRows s k hbase hrow hdvd hplaces]
      exact collects_map_ok_iff

end Ranking

/--
**The rows of a table are ranked alone.** A list that does not divide into rows is refused before
the settings are looked at. Otherwise only base blocks without elements are refused, and only if
there is a row. The winners are those of the rows, in their order: they are the first of each row,
with places in the row. They stay the same where other rows change, and change places with the
rows. It makes no difference which of the rows is done first.
-/
theorem rankRows_ranks_rows_alone
    (key : KeyType)
    (s : Settings)
    (values : List key.Carrier)
    {rowLen : Nat}
    (hplaces : rowLen ≤ 2 ^ 32)
    (k : Nat) :
    (∀ answer,
      s.RanksRows values rowLen k answer ↔ answer = (s.rankRows values rowLen k).result) ∧
    ((s.rankRows values rowLen k).result = .error (.unevenRows values.length rowLen) ↔
      rowLen = 0 ∨ ¬ rowLen ∣ values.length) ∧
    (0 < rowLen → rowLen ∣ values.length →
      (values = [] → (s.rankRows values rowLen k).result = .ok []) ∧
      (values ≠ [] → s.baseBlock = 0 →
        (s.rankRows values rowLen k).result = .error .emptyBlocks) ∧
      (1 ≤ s.baseBlock → ∃ winners,
        (s.rankRows values rowLen k).result = .ok winners ∧
        RowsRanked s.direction.comparator values rowLen k winners ∧
        (∀ other : List key.Carrier, other.length = values.length → ∃ winners',
          (s.rankRows other rowLen k).result = .ok winners' ∧
          ∀ r < winners.length, tableRow other rowLen r = tableRow values rowLen r →
            winners'[r]? = winners[r]?) ∧
        (∀ (σ : Equiv.Perm (Fin winners.length)) (other : List key.Carrier),
          other.length = values.length →
          (∀ r : Fin winners.length,
            tableRow other rowLen r = tableRow values rowLen (σ r)) → ∃ winners',
            (s.rankRows other rowLen k).result = .ok winners' ∧
            winners'.length = winners.length ∧
            ∀ r : Fin winners.length, winners'[r.val]? = some winners[σ r]))) := by
  have hcount : rowLen ≤ placeCount := hplaces
  refine ⟨fun answer => ranksRows_iff s k hcount, result_rankRows_eq_uneven_iff s k hcount, ?_⟩
  intro hrow hdvd
  refine ⟨?_, fun hne hbase => result_rankRows_of_empty_blocks s k hrow hdvd hbase hne, ?_⟩
  · rintro rfl
    rw [result_rankRows_of_even s k hrow hdvd, chunks_nil]
    rfl
  · intro hbase
    refine ⟨_, result_rankRows s k hbase hrow hdvd hcount, ?_, ?_, ?_⟩
    · refine rowsRanked_of_firstOf hdvd (by simp) ?_
      intro r hr
      rw [List.getElem_map, List.getElem_range]
      exact firstOf_ofPlaced s.direction (tableRow values rowLen r) k
    · intro other hlength
      refine ⟨_, result_rankRows s k hbase hrow (hlength ▸ hdvd) hcount, ?_⟩
      intro r hr hsame
      rw [List.length_map, List.length_range] at hr
      exact getElem?_rowWinners s k hr (hlength ▸ hr) hsame
    · intro σ other hlength hsame
      refine ⟨_, result_rankRows s k hbase hrow (hlength ▸ hdvd) hcount, by simp [hlength], ?_⟩
      intro r
      have hcovered : ((List.range (values.length / rowLen)).map fun r =>
          s.rowWinners k (tableRow values rowLen r)).length = values.length / rowLen := by
        simp
      have hr : r.val < other.length / rowLen := by
        rw [hlength]
        exact r.isLt.trans_eq hcovered
      rw [getElem?_rowWinners s k ((σ r).isLt.trans_eq hcovered) hr (hsame r)]
      exact List.getElem?_eq_getElem (σ r).isLt

/-- Two rows, of which one changes or both change places; a list that breaks off; empty blocks. -/
theorem rankRows_of_two_rows :
    (∃ winners,
      (Settings.rankRows ⟨.descending, 2, .two⟩ (halfWords [4, 8, 4, 9, 1, 7]) 3 2).result =
        .ok winners ∧
      winners.map (fun w => w.values.zip w.places) =
        [(halfWords [8, 4]).zip [1, 0], (halfWords [9, 7]).zip [0, 2]] ∧
      (∃ changed,
        (Settings.rankRows ⟨.descending, 2, .two⟩ (halfWords [4, 8, 4, 2, 2, 3]) 3 2).result =
          .ok changed ∧ changed[0]? = winners[0]?) ∧
      (Settings.rankRows ⟨.descending, 2, .two⟩ (halfWords [9, 1, 7, 4, 8, 4]) 3 2).result =
        .ok winners.reverse) ∧
    (Settings.rankRows ⟨.ascending, 0, .four⟩ (halfWords [4, 8, 4]) 2 1).result =
      .error (.unevenRows 3 2) ∧
    (Settings.rankRows ⟨.ascending, 0, .four⟩ (halfWords [4, 8, 4, 9]) 2 1).result =
      .error .emptyBlocks := by
  obtain ⟨-, -, heven⟩ := rankRows_ranks_rows_alone (.integer .unsigned 16)
    ⟨.descending, 2, .two⟩ (halfWords [4, 8, 4, 9, 1, 7]) (show 3 ≤ 2 ^ 32 by decide) 2
  obtain ⟨-, huneven, -⟩ := rankRows_ranks_rows_alone (.integer .unsigned 16)
    ⟨.ascending, 0, .four⟩ (halfWords [4, 8, 4]) (show 2 ≤ 2 ^ 32 by decide) 1
  obtain ⟨-, -, hempty⟩ := rankRows_ranks_rows_alone (.integer .unsigned 16)
    ⟨.ascending, 0, .four⟩ (halfWords [4, 8, 4, 9]) (show 2 ≤ 2 ^ 32 by decide) 1
  refine ⟨?_, huneven.2 (.inr (by decide)), (hempty (by decide) (by decide)).2.1 ?_ rfl⟩
  · obtain ⟨-, -, hranked⟩ := heven (by decide) (by decide)
    obtain ⟨winners, hresult, hrows, hchanged, hmoved⟩ := hranked (by decide)
    obtain ⟨first, second, rfl⟩ := List.length_eq_two.1 hrows.length_eq
    refine ⟨_, hresult, ?_, ?_, ?_⟩
    · have hfirst := (hrows.firstOf 0 Nat.zero_lt_two).pairs
      have hsecond := (hrows.firstOf 1 Nat.one_lt_two).pairs
      rw [List.getElem_cons_zero] at hfirst
      rw [List.getElem_cons_succ, List.getElem_cons_zero] at hsecond
      rw [List.map_cons, List.map_cons, List.map_nil, hfirst, hsecond]
      cbv
    · obtain ⟨changed, hchange, hsame⟩ := hchanged (halfWords [4, 8, 4, 2, 2, 3]) rfl
      exact ⟨changed, hchange, hsame 0 Nat.zero_lt_two rfl⟩
    · obtain ⟨moved, hmove, hlength, hplace⟩ :=
        hmoved (Equiv.swap (0 : Fin 2) 1) (halfWords [9, 1, 7, 4, 8, 4]) rfl
          (Fin.forall_fin_two.2 ⟨rfl, rfl⟩)
      obtain ⟨a, b, rfl⟩ := List.length_eq_two.1 hlength
      have ha := hplace (0 : Fin 2)
      have hb := hplace (1 : Fin 2)
      cases ha
      cases hb
      exact hmove
  · exact List.cons_ne_nil _ _

end KWayMerge
