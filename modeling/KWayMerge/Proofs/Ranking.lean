import KWayMerge.Proofs.Buffer.SelectionOrder
import KWayMerge.Proofs.Key.Laws
import KWayMerge.Ranking

/-!
# What a ranking returns

A ranking tags values with their places, sorts base blocks stably, selects, and takes the tags off
again. Each stage keeps like values in the order of their places, so what comes out is the front
of the stable sort of the tagged values. As the places are all different, that is also the front
of the pairs of values and places in the one order that goes by the values first and by the places
second. The base blocks and the fan-in appear in none of this.

**Results.**
* `result_sortAndSelect`: what comes out of a buffer whose blocks are sorted first.
* `result_rank`: the winners of a ranking.
* `rank_eq_ranking`: the values and places of the winners, for keys of every type.
-/

namespace KWayMerge

variable {α : Type}

/-! ### Sorting blocks and selecting -/

section SortAndSelect

/-- **Selecting from stably sorted chunks gives the front of the stable sort.** -/
theorem result_select_of_sorted_chunks
    (m : RunMerger α) [Std.TransCmp m.cmp]
    {blockLen : Nat}
    (hblock : 0 < blockLen)
    (buffer : List α)
    (k : Nat) :
    ((m.select blockLen ((chunks blockLen buffer).map m.cmp.stableSort).flatten.length k).run
        ((chunks blockLen buffer).map m.cmp.stableSort).flatten).result =
      .ok ((m.cmp.stableSort buffer).take (min k buffer.length)) := by
  have hchunks : chunks blockLen ((chunks blockLen buffer).map m.cmp.stableSort).flatten =
      (chunks blockLen buffer).map m.cmp.stableSort :=
    chunks_flatten_map_chunks hblock (Comparator.length_stableSort m.cmp) buffer
  have hordered : ∀ block ∈ (chunks blockLen buffer).map m.cmp.stableSort,
      m.cmp.Ordered block := by
    intro block hmem
    obtain ⟨chunk, -, rfl⟩ := List.mem_map.1 hmem
    exact Comparator.ordered_stableSort chunk
  have hmerge : headMerge m.cmp ((chunks blockLen buffer).map m.cmp.stableSort) =
      m.cmp.stableSort buffer := by
    rw [headMerge_eq_stableSort hordered, Comparator.stableSort_flatten_map,
      flatten_chunks hblock]
  have hlength : ((chunks blockLen buffer).map m.cmp.stableSort).flatten.length =
      buffer.length := by
    have hmerged : (headMerge m.cmp ((chunks blockLen buffer).map m.cmp.stableSort)).length =
        ((chunks blockLen buffer).map m.cmp.stableSort).flatten.length := length_headMerge _
    rw [← hmerged, hmerge, Comparator.length_stableSort]
  rw [result_select m hblock (Nat.le_refl _), List.take_length, hchunks, hmerge, hlength]

variable [MergeKey α] [Std.TransCmp (MergeKey.order (α := α))]

theorem result_sortAndSelect
    (s : Settings)
    (hbase : 0 < s.baseBlock)
    (buffer : List α)
    (k : Nat) :
    ((s.sortAndSelect k).run buffer).result =
      .ok ((s.direction.comparator.stableSort buffer).take (min k buffer.length)) := by
  have hcmp : Std.TransCmp (s.merger (α := α)).cmp := transCmp_comparator s.direction
  have hblocks : (sortEachBlock s.direction.comparator s.baseBlock).run buffer =
      ⟨.ok (), ((chunks s.baseBlock buffer).map s.merger.cmp.stableSort).flatten, []⟩ := by
    rw [sortEachBlock, if_neg (by omega), BufferM.run_bind_of_silent (BufferM.run_contents _)]
    rfl
  rw [Settings.sortAndSelect, BufferM.run_bind_of_silent hblocks,
    BufferM.run_bind_of_silent (BufferM.run_contents _),
    result_select_of_sorted_chunks s.merger hbase]
  rfl

/-- **The winners of a ranking are the first of the tagged values, stably sorted.** -/
theorem result_rank
    (s : Settings)
    (hbase : 0 < s.baseBlock)
    {values : List α}
    (hplaces : values.length ≤ placeCount)
    (k : Nat) :
    (s.rank values k).result =
      .ok (Winners.ofPlaced
        ((s.direction.comparator.stableSort (Placed.ofList values)).take
          (min k values.length))) := by
  have hvalid : s.validate = .ok () := by
    rw [Settings.validate, if_neg (by omega)]
  have htags : tagWithPlaces values = .ok (Placed.ofList values) := by
    rw [tagWithPlaces, if_neg (by omega)]
  have hlength : (Placed.ofList values).length = values.length := List.length_mapIdx
  rw [Settings.rank, hvalid, htags]
  dsimp only
  rw [result_sortAndSelect s hbase, hlength]
  rfl

end SortAndSelect

/-! ### Values and places -/

/-- Pairs of values and places, in the order of the values and then of the places. -/
def byValueThenPlace (cmp : Comparator α) : Comparator (α × Nat) :=
  fun a b => (cmp a.1 b.1).then (compare a.2 b.2)

/-- All pairs of values and their places, in order. -/
def ranking (cmp : Comparator α) (values : List α) : List (α × Nat) :=
  (byValueThenPlace cmp).stableSort values.zipIdx

theorem perm_ranking (cmp : Comparator α) (values : List α) :
    (ranking cmp values).Perm values.zipIdx :=
  Comparator.perm_stableSort _ _

theorem map_ofList (values : List α) :
    (Placed.ofList values).map (fun p => (p.value, p.place)) = values.zipIdx := by
  rw [Placed.ofList, List.mapIdx_eq_zipIdx_map, List.map_map]
  exact List.map_id _

/-- **Sorting tagged values stably sorts the pairs by values and then by places.** -/
theorem map_stableSort_ofList [MergeKey α] [Std.TransCmp (MergeKey.order (α := α))]
    (d : Direction) (values : List α) :
    (d.comparator.stableSort (Placed.ofList values)).map (fun p => (p.value, p.place)) =
      ranking d.comparator values := by
  let byValue : Comparator (α × Nat) := fun a b => d.comparator a.1 b.1
  have hvalue : Std.TransCmp byValue := Comparator.transCmp_comap Prod.fst
  have hplaces : values.zipIdx.Pairwise fun a b => a.2 < b.2 := by
    have hrange : (values.zipIdx.map Prod.snd).Pairwise (· < ·) := by
      rw [List.zipIdx_map_snd]
      exact List.pairwise_lt_range'
    exact List.pairwise_map.1 hrange
  have hread : d.comparator (α := Placed α) =
      fun a b => byValue (a.value, a.place) (b.value, b.place) :=
    comparator_placed d
  calc (d.comparator.stableSort (Placed.ofList values)).map (fun p => (p.value, p.place))
      = byValue.stableSort ((Placed.ofList values).map fun p => (p.value, p.place)) := by
        rw [hread, Comparator.map_stableSort]
    _ = byValue.stableSort values.zipIdx := by rw [map_ofList]
    _ = ranking d.comparator values := (Comparator.stableSort_then hplaces).symm

theorem getElem?_of_mem_ranking {cmp : Comparator α} {values : List α} {p : α × Nat}
    (h : p ∈ ranking cmp values) : values[p.2]? = some p.1 :=
  List.mem_zipIdx_iff_getElem?.1 ((perm_ranking cmp values).mem_iff.1 h)

theorem nodup_map_snd_ranking (cmp : Comparator α) (values : List α) :
    ((ranking cmp values).map Prod.snd).Nodup := by
  rw [((perm_ranking cmp values).map Prod.snd).nodup_iff, List.zipIdx_map_snd]
  exact List.nodup_range'

theorem zip_ofPlaced (xs : List (Placed α)) :
    (Winners.ofPlaced xs).values.zip (Winners.ofPlaced xs).places =
      xs.map fun p => (p.value, p.place) :=
  List.zip_map'

/-- These winners are the first `k` values, in order, each with its place. -/
structure Winners.FirstOf (cmp : Comparator α) (values : List α) (k : Nat)
    (w : Winners α) : Prop where
  length_values : w.values.length = min k values.length
  length_places : w.places.length = min k values.length
  nodup_places : w.places.Nodup
  place_lt : ∀ place ∈ w.places, place < values.length
  value_at : ∀ (j : Nat) (hv : j < w.values.length) (hp : j < w.places.length),
    values[w.places[j]]? = some w.values[j]
  pairs : w.values.zip w.places = (ranking cmp values).take (min k values.length)

/-- Everything about the winners follows from their number and their pairs. -/
theorem Winners.firstOf_of_pairs
    {cmp : Comparator α} {values : List α} {k : Nat} {w : Winners α}
    (hvalues : w.values.length = min k values.length)
    (hplaces : w.places.length = min k values.length)
    (hpairs : w.values.zip w.places = (ranking cmp values).take (min k values.length)) :
    w.FirstOf cmp values k := by
  have hpair : ∀ (j : Nat) (hv : j < w.values.length) (hp : j < w.places.length),
      values[w.places[j]]? = some w.values[j] := by
    intro j hv hp
    have hmem : (w.values[j], w.places[j]) ∈ w.values.zip w.places := by
      have hj : j < (w.values.zip w.places).length := by
        rw [List.length_zip]
        omega
      rw [← List.getElem_zip (h := hj)]
      exact List.getElem_mem hj
    rw [hpairs] at hmem
    exact getElem?_of_mem_ranking (List.mem_of_mem_take hmem)
  refine ⟨hvalues, hplaces, ?_, ?_, hpair, hpairs⟩
  · have hsnd : w.places = ((ranking cmp values).take (min k values.length)).map Prod.snd := by
      rw [← hpairs, List.map_snd_zip]
      omega
    rw [hsnd, List.map_take]
    exact (nodup_map_snd_ranking cmp values).sublist (List.take_sublist _ _)
  · intro place hplace
    obtain ⟨j, hj, rfl⟩ := List.mem_iff_getElem.1 hplace
    obtain ⟨hlt, -⟩ := List.getElem?_eq_some_iff.1 (hpair j (by omega) hj)
    exact hlt

/-- **The front of the stably sorted tagged values holds the first values.** -/
theorem firstOf_ofPlaced [MergeKey α] [Std.TransCmp (MergeKey.order (α := α))]
    (d : Direction) (values : List α) (k : Nat) :
    (Winners.ofPlaced ((d.comparator.stableSort (Placed.ofList values)).take
      (min k values.length))).FirstOf d.comparator values k := by
  have hlength : ((d.comparator.stableSort (Placed.ofList values)).take
      (min k values.length)).length = min k values.length := by
    rw [List.length_take, Comparator.length_stableSort, Placed.ofList, List.length_mapIdx]
    omega
  refine Winners.firstOf_of_pairs ?_ ?_ ?_
  · exact (List.length_map _).trans hlength
  · exact (List.length_map _).trans hlength
  · rw [zip_ofPlaced, List.map_take, map_stableSort_ofList]

/--
**A ranking returns the first values with their places, ordered by the values and among like values
by the places.** It is never refused, and base blocks and fan-in make no difference to it.
-/
theorem rank_eq_ranking
    (key : KeyType)
    (s : Settings)
    (hbase : 1 ≤ s.baseBlock)
    {values : List key.Carrier}
    (hplaces : values.length ≤ 2 ^ 32)
    (k : Nat) :
    ∃ w : Winners key.Carrier,
      (s.rank values k).result = .ok w ∧
      w.FirstOf s.direction.comparator values k ∧
      ∀ t : Settings, t.direction = s.direction → 1 ≤ t.baseBlock →
        (t.rank values k).result = .ok w := by
  have hcount : values.length ≤ placeCount := hplaces
  refine ⟨_, result_rank s hbase hcount k, firstOf_ofPlaced s.direction values k, ?_⟩
  intro t hdirection ht
  rw [result_rank t ht hcount k, hdirection]

/-- Half-words for the case below. -/
def halfWords (values : List Int) : List (KeyType.integer .unsigned 16).Carrier :=
  values.map FixedInt.ofInt

theorem rank_of_equal_values :
    ∃ w, (Settings.rank ⟨.descending, 1, .four⟩ (halfWords [4, 8, 4, 8, 8]) 4).result = .ok w ∧
      w.values.zip w.places = (halfWords [8, 8, 8, 4]).zip [1, 3, 4, 0] ∧
      (Settings.rank ⟨.descending, 32, .two⟩ (halfWords [4, 8, 4, 8, 8]) 4).result = .ok w := by
  obtain ⟨w, hrank, hfirst, hother⟩ :=
    rank_eq_ranking (.integer .unsigned 16) ⟨.descending, 1, .four⟩ (by decide)
      (show (halfWords [4, 8, 4, 8, 8]).length ≤ 2 ^ 32 by decide) 4
  refine ⟨w, hrank, ?_, hother ⟨.descending, 32, .two⟩ rfl (by decide)⟩
  rw [hfirst.pairs]
  cbv

end KWayMerge
