import KWayMerge.Number.Binary64

/-!
# TOML values and tables

A document is a table: a list of entries in the order in which they were written. Tables are
filled entry by entry, and by headers that open a table further down. How a table came about
decides what may still be added to it: a table between braces is closed, a table with a header
of its own is not extended by dotted keys, and one that dotted keys made gets no header.
-/

namespace KWayMerge.Toml

/-- How a table came about. -/
inductive Origin where
  | inline
  /-- Opened by its own header, or the document itself. -/
  | header
  /-- Made on the way to the table of a header. -/
  | implied
  /-- Made on the way along a dotted key. -/
  | dotted
deriving DecidableEq, Repr

/-- A value of a document. -/
inductive Value where
  | string (text : String)
  | integer (value : Int)
  | float (negative : Bool) (magnitude : Binary64)
  | boolean (value : Bool)
  | datetime (text : String)
  | array (items : List Value)
  | table (origin : Origin) (entries : List (String × Value))
  /-- The tables under headers in double brackets, each a list of entries. -/
  | tables (items : List (List (String × Value)))

/-- Entries in the order in which they were written. -/
abbrev Entries := List (String × Value)

/-- A table that is being filled. -/
structure Table where
  origin : Origin
  entries : Entries

namespace Entries

def find? (entries : Entries) (key : String) : Option Value :=
  (List.find? (fun entry => entry.1 == key) entries).map Prod.snd

/-- Puts another value in the place of the one under a key. -/
def replace (entries : Entries) (key : String) (value : Value) : Entries :=
  List.map (fun entry => if entry.1 == key then (key, value) else entry) entries

/-- The entries under all other keys. -/
def remove (entries : Entries) (key : String) : Entries :=
  List.filter (fun entry => !(entry.1 == key)) entries

end Entries

namespace Table

/-- Adds an entry under a new key. -/
def insert? (t : Table) (key : String) (value : Value) : Option Table :=
  match Entries.find? t.entries key with
  | some _ => none
  | none => some ⟨t.origin, t.entries ++ [(key, value)]⟩

/--
Changes the table at the end of a path, making the tables on the way that do not exist. Of the
tables under a header in double brackets the last is meant. A dotted key only passes through
tables without a header of their own.
-/
def descend (dotted : Bool) (change : Table → Option Table) :
    (path : List String) → Table → Option Table
  | [], t => change t
  | key :: path, t =>
      match Entries.find? t.entries key with
      | none => do
          let made : Table := ⟨if dotted then .dotted else .implied, []⟩
          let child ← descend dotted change path made
          some ⟨t.origin, t.entries ++ [(key, .table child.origin child.entries)]⟩
      | some (.table origin entries) =>
          if origin = .inline ∨ (dotted ∧ origin = .header) then
            none
          else do
            let child ← descend dotted change path ⟨origin, entries⟩
            some ⟨t.origin, Entries.replace t.entries key (.table child.origin child.entries)⟩
      | some (.tables items) => do
          let last ← items.getLast?
          let child ← descend dotted change path ⟨.header, last⟩
          some ⟨t.origin,
            Entries.replace t.entries key (.tables (items.dropLast ++ [child.entries]))⟩
      | some _ => none

/--
Adds the value under a key that is reached through a path. With a path, the last table has to
be one that dotted keys made; without one, it must not be.
-/
def insertAt? (t : Table) (path : List String) (key : String) (value : Value) : Option Table :=
  t.descend true
    (fun inner =>
      if decide (inner.origin = .dotted) == path.isEmpty then none else inner.insert? key value)
    path

/-- Adds entries one after another, each under a path and a key. -/
def insertAll? (t : Table) : List ((List String × String) × Value) → Option Table
  | [] => some t
  | ((path, key), value) :: rest => do
      let next ← t.insertAt? path key value
      next.insertAll? rest

end Table
end KWayMerge.Toml
