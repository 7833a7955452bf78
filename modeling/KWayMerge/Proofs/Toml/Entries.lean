import KWayMerge.Proofs.Toml.Readers

/-!
# The entries of a document

The lines of a document fill its table one after another, directly or by way of a table further
down, and no line adds a key that is there already. So the keys of a document are distinct, and
whatever stands under one of them as an integer fits into 64 bits. The table that the lines of the
current section fill takes its place in the document when the section ends. What it holds then does
not matter, for a table is no integer; only the lines before the first header count.

**Results.**
* `Table.proper_of_descend`: a change further down leaves the keys distinct.
* `Draft.proper_of_add`: no line does any harm.
* `proper_parse`: the entries of a document have distinct keys and integers of 64 bits.
-/

namespace KWayMerge.Toml

theorem Value.fits_table (origin : Origin) (entries : Entries) : (table origin entries).Fits :=
  trivial

theorem Value.fits_tables (items : List Entries) : (tables items).Fits :=
  trivial

namespace Entries

/-- Entries as those of a document are: under distinct keys, with integers that fit. -/
structure Proper (entries : Entries) : Prop where
  nodup : entries.keys.Nodup
  fits : ∀ entry ∈ entries, entry.2.Fits

theorem proper_nil : Proper [] where
  nodup := List.nodup_nil
  fits := by simp

theorem find?_eq_none_iff {entries : Entries} {key : String} :
    find? entries key = none ↔ key ∉ entries.keys := by
  rw [find?, Option.map_eq_none_iff, List.find?_eq_none, keys, List.mem_map]
  constructor
  · rintro h ⟨entry, hentry, rfl⟩
    exact h entry hentry (beq_self_eq_true _)
  · intro h entry hentry hkey
    exact h ⟨entry, hentry, eq_of_beq hkey⟩

theorem keys_replace (entries : Entries) (key : String) (value : Value) :
    (replace entries key value).keys = entries.keys := by
  rw [keys, replace, List.map_map, keys]
  refine List.map_congr_left ?_
  intro entry _
  rw [Function.comp_apply]
  split
  · next hkey => exact (eq_of_beq hkey).symm
  · rfl

variable {entries : Entries} {key : String} {value : Value}

theorem Proper.append (h : entries.Proper) (hkey : find? entries key = none)
    (hvalue : value.Fits) : Proper (entries ++ [(key, value)]) where
  nodup := by
    rw [keys, List.map_append, List.nodup_append]
    refine ⟨h.nodup, List.nodup_singleton _, ?_⟩
    rintro name hname _ hnew rfl
    rw [List.map_cons, List.map_nil, List.mem_singleton] at hnew
    rw [hnew] at hname
    exact find?_eq_none_iff.1 hkey hname
  fits := by
    intro entry hentry
    obtain hold | hnew := List.mem_append.1 hentry
    · exact h.fits entry hold
    · rw [List.mem_singleton.1 hnew]
      exact hvalue

theorem Proper.replace (h : entries.Proper) (key : String) (hvalue : value.Fits) :
    Proper (entries.replace key value) where
  nodup := by
    rw [keys_replace]
    exact h.nodup
  fits := by
    rw [Entries.replace, List.forall_mem_map]
    intro entry hentry
    split
    · exact hvalue
    · exact h.fits entry hentry

theorem Proper.remove (h : entries.Proper) (key : String) : Proper (entries.remove key) where
  nodup := h.nodup.sublist (List.filter_sublist.map _)
  fits entry hentry := h.fits entry (List.mem_of_mem_filter hentry)

end Entries

/-! ## Changes to a table -/

namespace Table

variable {t t' : Table}

theorem proper_of_insert? {key : String} {value : Value} (ht : t.entries.Proper)
    (hvalue : value.Fits) (h : t.insert? key value = some t') : t'.entries.Proper := by
  rw [insert?] at h
  split at h
  · cases h
  · next hkey =>
      cases h
      exact ht.append hkey hvalue

/-- Changes at the end of a path: what is made on the way, or changed there, is a table. -/
theorem proper_of_descend {dotted : Bool} {change : Table → Option Table} {path : List String}
    (ht : t.entries.Proper)
    (hchange : ∀ {u u' : Table}, u.entries.Proper → change u = some u' → u'.entries.Proper)
    (h : t.descend dotted change path = some t') : t'.entries.Proper := by
  cases path with
  | nil => exact hchange ht h
  | cons key path =>
      rw [descend] at h
      split at h
      · next hkey =>
          obtain ⟨child, -, hchild⟩ := Option.bind_eq_some_iff.1 h
          cases hchild
          exact ht.append hkey (Value.fits_table _ _)
      · split at h
        · cases h
        · obtain ⟨child, -, hchild⟩ := Option.bind_eq_some_iff.1 h
          cases hchild
          exact ht.replace key (Value.fits_table _ _)
      · obtain ⟨last, -, hlast⟩ := Option.bind_eq_some_iff.1 h
        obtain ⟨child, -, hchild⟩ := Option.bind_eq_some_iff.1 hlast
        cases hchild
        exact ht.replace key (Value.fits_tables _)
      · cases h

/-- The tables on a path may be made without a change at its end. -/
theorem proper_of_make {path : List String} (ht : t.entries.Proper)
    (h : t.descend false some path = some t') : t'.entries.Proper := by
  refine proper_of_descend ht ?_ h
  rintro u _ hu ⟨⟩
  exact hu

theorem proper_of_insertAt? {path : List String} {key : String} {value : Value}
    (ht : t.entries.Proper) (hvalue : value.Fits)
    (h : t.insertAt? path key value = some t') : t'.entries.Proper := by
  refine proper_of_descend ht ?_ h
  intro u u' hu hchange
  split at hchange
  · cases hchange
  · exact proper_of_insert? hu hvalue hchange

end Table

/-! ## Lines -/

namespace Draft

/-- The entries of the document itself are proper: those of the first section, while it lasts. -/
def Proper (d : Draft) : Prop :=
  match d.place with
  | .root => d.current.entries.Proper
  | .table .. | .nextTable .. => d.finished.entries.Proper

theorem proper_empty : Draft.empty.Proper :=
  Entries.proper_nil

/-- The end of a section puts a table into the document, or a list of tables. -/
theorem proper_of_finish {d : Draft} {t : Table} (hd : d.Proper) (h : d.finish = some t) :
    t.entries.Proper := by
  rw [finish] at h
  rw [Proper] at hd
  split at h
  · next hplace =>
      rw [hplace] at hd
      cases h
      exact hd
  · next hplace =>
      rw [hplace] at hd
      refine Table.proper_of_descend hd ?_ h
      intro u u' hu hchange
      exact Table.proper_of_insert? hu (Value.fits_table _ _) hchange
  · next hplace =>
      rw [hplace] at hd
      refine Table.proper_of_descend hd ?_ h
      intro u u' hu hchange
      split at hchange
      · exact Table.proper_of_insert? hu (Value.fits_tables _) hchange
      · cases hchange
        exact hu.replace _ (Value.fits_tables _)
      · cases hchange

theorem proper_of_openTable {t : Table} {path : List String} {name : String} {d : Draft}
    (ht : t.entries.Proper) (h : openTable t path name = some d) : d.Proper := by
  rw [openTable] at h
  obtain ⟨document, hdocument, h⟩ := Option.bind_eq_some_iff.1 h
  obtain ⟨parent, -, h⟩ := Option.bind_eq_some_iff.1 h
  have hproper := Table.proper_of_make ht hdocument
  split at h
  · cases h
    exact hproper
  · obtain ⟨without, hwithout, h⟩ := Option.bind_eq_some_iff.1 h
    cases h
    refine Table.proper_of_descend hproper ?_ hwithout
    rintro u _ hu ⟨⟩
    exact hu.remove name
  · cases h

theorem proper_of_openNextTable {t : Table} {path : List String} {name : String} {d : Draft}
    (ht : t.entries.Proper) (h : openNextTable t path name = some d) : d.Proper := by
  rw [openNextTable] at h
  obtain ⟨document, hdocument, h⟩ := Option.bind_eq_some_iff.1 h
  obtain ⟨parent, -, h⟩ := Option.bind_eq_some_iff.1 h
  have hproper := Table.proper_of_make ht hdocument
  split at h
  · cases h
    exact hproper
  · cases h
    exact hproper
  · cases h

/-- **No line does any harm** to the entries of the document. -/
theorem proper_of_add {d d' : Draft} {line : Line} (hd : d.Proper) (hline : line.Fits)
    (h : d.add line = some d') : d'.Proper := by
  cases line with
  | blank =>
      cases h
      exact hd
  | entry path name value =>
      obtain ⟨current, hcurrent, h⟩ := Option.bind_eq_some_iff.1 h
      cases h
      rw [Proper] at hd ⊢
      dsimp only
      split
      · next hplace =>
          rw [hplace] at hd
          exact Table.proper_of_insertAt? hd hline hcurrent
      all_goals
        next hplace =>
          rw [hplace] at hd
          exact hd
  | table path name =>
      obtain ⟨document, hdocument, h⟩ := Option.bind_eq_some_iff.1 h
      exact proper_of_openTable (proper_of_finish hd hdocument) h
  | nextTable path name =>
      obtain ⟨document, hdocument, h⟩ := Option.bind_eq_some_iff.1 h
      exact proper_of_openNextTable (proper_of_finish hd hdocument) h

theorem proper_of_foldlM {lines : List Line} {d d' : Draft} (hd : d.Proper)
    (hlines : ∀ line ∈ lines, line.Fits) (h : lines.foldlM Draft.add d = some d') :
    d'.Proper := by
  induction lines generalizing d with
  | nil =>
      cases h
      exact hd
  | cons line lines ih =>
      rw [List.forall_mem_cons] at hlines
      rw [List.foldlM_cons] at h
      obtain ⟨next, hnext, h⟩ := Option.bind_eq_some_iff.1 h
      exact ih (proper_of_add hd hlines.1 hnext) hlines.2 h

end Draft

/-- **The entries of a document** have distinct keys, and integers among them fit into 64 bits. -/
theorem proper_parse {text : String} {entries : Entries} (h : parse text = some entries) :
    entries.Proper := by
  obtain ⟨⟨read, rest⟩, hread, h⟩ := Option.bind_eq_some_iff.1 h
  dsimp only at h
  split at h
  · obtain ⟨draft, hdraft, h⟩ := Option.bind_eq_some_iff.1 h
    obtain ⟨document, hdocument, h⟩ := Option.bind_eq_some_iff.1 h
    cases h
    have hdraft := Draft.proper_of_foldlM Draft.proper_empty (gives_lines hread) hdraft
    exact Draft.proper_of_finish hdraft hdocument
  · cases h

end KWayMerge.Toml
