import KWayMerge.Toml.Scalar

/-!
# Formats of documents

A format reads texts as documents, and writes documents as texts. What is said about documents
here does not depend on the way in which a format does this, but on what its standard promises: no
key stands in a document twice, an integer has 64 bits, and entries that need no quoting and no
escapes can be written and are read back.

**Results.** `Format.Lawful` is what is relied on.
-/

namespace KWayMerge.Toml

/-- A way to read texts as documents, and to write documents as texts. -/
structure Format where
  /-- The entries of a document in their order; none if the text is not well-formed. -/
  read : String → Option Entries
  /-- The text of a document; none if there is no text for one of its values. -/
  write : Entries → Option String

/-- The keys of entries, in their order. -/
def Entries.keys (entries : Entries) : List String :=
  entries.map Prod.fst

/-- A value that fits into 64 bits with a sign, if it is an integer. -/
def Value.Fits : Value → Prop
  | .integer n => -maxInteger - 1 ≤ n ∧ n ≤ maxInteger
  | _ => True

/-- A key that needs no quotes. -/
def isBare (key : String) : Bool :=
  !key.toList.isEmpty && key.toList.all isBareKey

/-- A character that stands for itself between double quotes. -/
def isPlain (c : Char) : Bool :=
  isText c && c != '"' && c != '\\'

/-- A text without anything to escape, or a count. -/
def Value.isPlain : Value → Bool
  | .string text => text.toList.all Toml.isPlain
  | .integer n => decide (0 ≤ n ∧ n ≤ maxInteger)
  | _ => false

/-- What the standard of a format promises. -/
structure Format.Lawful (f : Format) : Prop where
  /-- No key stands in a document twice. -/
  nodup_keys : ∀ {text : String} {entries : Entries}, f.read text = some entries →
    entries.keys.Nodup
  /-- Integers have 64 bits, one of them for the sign. -/
  integers_fit : ∀ {text : String} {entries : Entries}, f.read text = some entries →
    ∀ entry ∈ entries, entry.2.Fits
  /-- Plain values under keys without quotes are written, and read from what is written. -/
  read_write : ∀ {entries : Entries}, entries.keys.Nodup →
    (∀ entry ∈ entries, isBare entry.1 = true ∧ entry.2.isPlain = true) →
      ∃ text, f.write entries = some text ∧ f.read text = some entries

end KWayMerge.Toml
