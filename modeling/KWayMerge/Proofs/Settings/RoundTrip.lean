import KWayMerge.Proofs.Settings.Reading
import KWayMerge.Settings.Writing

/-!
# Settings that are written are read back

Settings are written as three entries, and overridden by all three of them, settings keep nothing
of what they were. So it is enough that the format has a text for these entries. Their keys need no
quotes, and the names have nothing to escape; but an integer of a document has 64 bits and a sign,
and longer base blocks have no text. Those of settings that come from a document are not longer,
whichever of its entries set them.

**Results.**
* `read_toText?`: what is written is a document with three entries.
* `foldlM_entries`: these override settings altogether.
* `baseBlock_le_of_ofText`: settings that are read can be written.
* `ofText_toText`: settings that are written are read back.
-/

namespace KWayMerge.Settings

open Toml

variable {f : Format} {s : Settings}

/-- The entries of settings are plain, if the base blocks fit into the format. -/
theorem isPlain_of_mem_entries (h : (s.baseBlock : Int) ≤ maxInteger) :
    ∀ entry ∈ s.entries, isBare entry.1 = true ∧ entry.2.isPlain = true := by
  rw [entries, List.forall_mem_cons, List.forall_mem_cons, List.forall_mem_singleton]
  refine ⟨?_, ?_, ?_⟩
  · exact Readable.isPlain (.order (by cases s.direction <;> decide))
  · exact Readable.isPlain (.baseBlock ⟨Int.natCast_nonneg _, h⟩)
  · exact Readable.isPlain (.maxArity (by cases s.fanIn <;> decide))

/-- **Settings are written as a document** with three entries. -/
theorem read_toText? (hf : f.Lawful) (h : (s.baseBlock : Int) ≤ maxInteger) :
    ∃ text, s.toText? f = some text ∧ f.read text = some s.entries := by
  have hkeys : s.entries.keys = ["order", "base_block", "max_arity"] := rfl
  refine hf.read_write ?_ (isPlain_of_mem_entries h)
  rw [hkeys]
  decide

/-- Three entries override settings altogether. -/
theorem foldlM_entries (base : Settings) : s.entries.foldlM override base = .ok s := by
  have horder : base.override ("order", .string s.direction.name) =
      .ok ⟨s.direction, base.baseBlock, base.fanIn⟩ :=
    override_eq_ok_iff.2 (.inl ⟨_, _, rfl, readDirectionName_eq_ok_iff.2 rfl, rfl⟩)
  have hbaseBlock : override ⟨s.direction, base.baseBlock, base.fanIn⟩
      ("base_block", .integer s.baseBlock) = .ok ⟨s.direction, s.baseBlock, base.fanIn⟩ :=
    override_eq_ok_iff.2 (.inr (.inl ⟨_, rfl, rfl⟩))
  have hfanIn : override ⟨s.direction, s.baseBlock, base.fanIn⟩
      ("max_arity", .integer s.fanIn.count) = .ok s :=
    override_eq_ok_iff.2 (.inr (.inr ⟨_, rfl, rfl⟩))
  refine foldlM_cons_eq_ok_iff.2 ⟨_, horder, ?_⟩
  refine foldlM_cons_eq_ok_iff.2 ⟨_, hbaseBlock, ?_⟩
  exact foldlM_cons_eq_ok_iff.2 ⟨_, hfanIn, rfl⟩

/-- An entry sets base blocks that fit into the format, if any. -/
theorem baseBlock_le_of_override {s' : Settings} {entry : String × Value}
    (hs : (s.baseBlock : Int) ≤ maxInteger) (hfits : entry.2.Fits)
    (h : s.override entry = .ok s') : (s'.baseBlock : Int) ≤ maxInteger := by
  obtain ⟨v, d, -, -, rfl⟩ | ⟨n, rfl, rfl⟩ | ⟨fanIn, -, rfl⟩ := override_eq_ok_iff.1 h
  · exact hs
  · exact hfits.2
  · exact hs

theorem baseBlock_le_of_foldlM {s' : Settings} {entries : Entries}
    (hs : (s.baseBlock : Int) ≤ maxInteger) (hfits : ∀ entry ∈ entries, entry.2.Fits)
    (h : entries.foldlM override s = .ok s') : (s'.baseBlock : Int) ≤ maxInteger := by
  induction entries generalizing s with
  | nil =>
      cases h
      exact hs
  | cons entry entries ih =>
      rw [List.forall_mem_cons] at hfits
      obtain ⟨next, hentry, h⟩ := foldlM_cons_eq_ok_iff.1 h
      exact ih (baseBlock_le_of_override hs hfits.1 hentry) hfits.2 h

/-- **Settings that are read can be written**: their base blocks are integers of a document. -/
theorem baseBlock_le_of_ofText (hf : f.Lawful) {text : String} (h : ofText f text = .ok s) :
    (s.baseBlock : Int) ≤ maxInteger := by
  obtain ⟨entries, hread, hs, -⟩ := ofText_eq_ok_iff.1 h
  exact baseBlock_le_of_foldlM (by decide) (hf.integers_fit hread) hs

theorem exists_toText?_of_validate (hf : f.Lawful) (hle : (s.baseBlock : Int) ≤ maxInteger)
    (hvalid : s.validate = .ok ()) :
    ∃ text, s.toText? f = some text ∧ ofText f text = .ok s := by
  obtain ⟨text, hwritten, hread⟩ := read_toText? hf hle
  exact ⟨text, hwritten, ofText_eq_ok_iff.2 ⟨s.entries, hread, foldlM_entries .default, hvalid⟩⟩

/--
**Settings that are written are read back**, whatever the format is that keeps to its standard: any
settings whose base blocks are a number of elements that a document can name, and any that were
read from a document.
-/
theorem ofText_toText
    (hf : f.Lawful)
    (s : Settings) :
    (1 ≤ s.baseBlock → s.baseBlock ≤ 2 ^ 63 - 1 →
      ∃ text, s.toText? f = some text ∧ ofText f text = .ok s) ∧
    ∀ text, ofText f text = .ok s →
      ∃ written, s.toText? f = some written ∧ ofText f written = .ok s := by
  constructor
  · intro hpos hle
    have hle : (s.baseBlock : Int) ≤ maxInteger := by
      rw [maxInteger]
      omega
    exact exists_toText?_of_validate hf hle (validate_eq_ok_iff.2 (by omega))
  · intro text h
    obtain ⟨-, -, -, hvalid⟩ := ofText_eq_ok_iff.1 h
    exact exists_toText?_of_validate hf (baseBlock_le_of_ofText hf h) hvalid

/-- The longest blocks are read back, and so are settings that came from another text. -/
theorem ofText_toText_of_two_settings :
    format.Lawful ∧
    1 ≤ 2 ^ 63 - 1 ∧
    (∃ text, toText? format ⟨.descending, 2 ^ 63 - 1, .three⟩ = some text ∧
      ofText format text = .ok ⟨.descending, 2 ^ 63 - 1, .three⟩) ∧
    ofText format "max_arity = 2\norder = \"ascending\"\n" = .ok ⟨.ascending, 32, .two⟩ ∧
    ofText format "order = \"ascending\"\nbase_block = 32\nmax_arity = 2\n" =
      .ok ⟨.ascending, 32, .two⟩ := by
  have hparse : format.read "max_arity = 2\norder = \"ascending\"\n" =
      some [("max_arity", .integer 2), ("order", .string "ascending")] :=
    parse_of_write (by decide) (by decide) rfl
  have hread : ofText format "max_arity = 2\norder = \"ascending\"\n" =
      .ok ⟨.ascending, 32, .two⟩ :=
    ofText_eq_ok_iff.2 ⟨_, hparse, rfl, rfl⟩
  have hlongest := (ofText_toText lawful_format ⟨.descending, 2 ^ 63 - 1, .three⟩).1 (by decide)
    (by decide)
  obtain ⟨written, hwritten, hback⟩ := (ofText_toText lawful_format ⟨.ascending, 32, .two⟩).2 _
    hread
  have htext : toText? format ⟨.ascending, 32, .two⟩ =
      some "order = \"ascending\"\nbase_block = 32\nmax_arity = 2\n" := rfl
  obtain rfl := Option.some.inj (htext.symm.trans hwritten)
  exact ⟨lawful_format, by decide, hlongest, hread, hback⟩

end KWayMerge.Settings
