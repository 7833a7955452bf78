import KWayMerge.Toml.Scalar

/-!
# TOML documents

A document is a sequence of sections. The first has no header; each later one opens with a
header that names a table. The entries of a section fill the table of its header. The result is
the list of top-level entries in document order, where a table counts from where its own header
stands.
-/

namespace KWayMerge.Toml

/-! ## Values -/

/-- The items of an array, behind its opening bracket. -/
def arrayItems (item : Parser Value) : Parser (List Value) := do
  blankLines
  match ← peek? with
  | some ']' => do char ']'; pure []
  | _ => do
      let first ← item
      blankLines
      let others ← manyUntil do
        match ← satisfy fun c => c == ',' || c == ']' with
        | ']' => pure none
        | _ => do
            blankLines
            match ← peek? with
            | some ']' => do char ']'; pure none
            | _ => do
                let next ← item
                blankLines
                pure (some next)
      pure (first :: others)

/-- A key and a value with an equals sign between. -/
def keyValue (item : Parser Value) : Parser ((List String × String) × Value) := do
  let name ← key
  char '='
  blanks
  let value ← item
  pure (name, value)

/-- The entries of a table between braces, behind its opening brace. -/
def braceEntries (item : Parser Value) : Parser (List ((List String × String) × Value)) := do
  blanks
  match ← peek? with
  | some '}' => do char '}'; pure []
  | _ => do
      let first ← keyValue item
      blanks
      let others ← manyUntil do
        match ← satisfy fun c => c == ',' || c == '}' with
        | '}' => pure none
        | _ => do
            let next ← keyValue item
            blanks
            pure (some next)
      pure (first :: others)

/-- The table of entries between braces. -/
def braceTable (entries : List ((List String × String) × Value)) : Parser Value :=
  match (Table.mk .inline []).insertAll? entries with
  | none => failure
  | some t => pure (.table .inline t.entries)

/-- A value, in which only such values may stand as `nested` reads, if any. -/
def valueAround (nested : Option (Parser Value)) : Parser Value := do
  match ← peek? with
  | some '"' | some '\'' => do return .string (← string)
  | some '[' => do
      let item ← (StateT.lift nested : StateT (List Char) Option (Parser Value))
      char '['
      return .array (← arrayItems item)
  | some '{' => do
      let item ← (StateT.lift nested : StateT (List Char) Option (Parser Value))
      char '{'
      braceTable (← braceEntries item)
  | some 't' => do literal ['t', 'r', 'u', 'e']; pure (.boolean true)
  | some 'f' => do literal ['f', 'a', 'l', 's', 'e']; pure (.boolean false)
  | _ => datetime <|> number

/-- A value in which values stand inside one another at most `depth` deep. -/
def valueWithin : (depth : Nat) → Parser Value
  | 0 => valueAround none
  | depth + 1 => valueAround (some (valueWithin depth))

def value : Parser Value :=
  valueWithin (nestingLimit - 1)

/-! ## Sections -/

/-- A line of a document, as far as it matters. -/
inductive Line where
  | blank
  | table (path : List String) (name : String)
  | nextTable (path : List String) (name : String)
  | entry (path : List String) (name : String) (value : Value)

/-- A header, behind its first bracket. -/
def headerLine : Parser Line := do
  match ← peek? with
  | some '[' => do
      char '['
      let (path, name) ← key
      literal [']', ']']
      lineRest
      pure (.nextTable path name)
  | _ => do
      let (path, name) ← key
      char ']'
      lineRest
      pure (.table path name)

/-- The next line; none at the end of the document. -/
def line? : Parser (Option Line) := do
  blanks
  match ← peek? with
  | none => pure none
  | some '#' => do comment; lineEnd; pure (some .blank)
  | some '\n' | some '\r' => do newline; pure (some .blank)
  | some '[' => do char '['; return some (← headerLine)
  | some _ => do
      let ((path, name), value) ← keyValue value
      lineRest
      pure (some (.entry path name value))

def lines : Parser (List Line) :=
  manyUntil line?

/-- A mark of byte order at the start says nothing. -/
def withoutMark : List Char → List Char
  | '\ufeff' :: rest => rest
  | s => s

/-! ## Filling tables -/

/-- Where the table of the current section is to be put. -/
inductive Place where
  | root
  | table (path : List String) (name : String)
  | nextTable (path : List String) (name : String)

/-- A document on the way: the sections that are finished, and the current one. -/
structure Draft where
  finished : Table
  place : Place
  current : Table

namespace Draft

def empty : Draft := ⟨⟨.header, []⟩, .root, ⟨.header, []⟩⟩

/-- The document with the table of the current section in its place. -/
def finish (d : Draft) : Option Table :=
  match d.place with
  | .root => some d.current
  | .table path name =>
      d.finished.descend false
        (fun parent => parent.insert? name (.table .header d.current.entries)) path
  | .nextTable path name =>
      d.finished.descend false
        (fun parent =>
          match Entries.find? parent.entries name with
          | none => parent.insert? name (.tables [d.current.entries])
          | some (.tables items) =>
              some ⟨parent.origin,
                Entries.replace parent.entries name (.tables (items ++ [d.current.entries]))⟩
          | some _ => none)
        path

/-- The table at the end of a path. -/
def tableAt? : (path : List String) → Table → Option Table
  | [], t => some t
  | key :: path, t =>
      match Entries.find? t.entries key with
      | some (.table origin entries) => tableAt? path ⟨origin, entries⟩
      | some (.tables items) => do
          let last ← items.getLast?
          tableAt? path ⟨.header, last⟩
      | _ => none

/--
Opens the section of a header in single brackets. A table that was only made on the way to
others keeps what it holds and moves to where its header stands; any other is not opened twice.
-/
def openTable (document : Table) (path : List String) (name : String) : Option Draft := do
  let document ← document.descend false some path
  let parent ← tableAt? path document
  match Entries.find? parent.entries name with
  | none => some ⟨document, .table path name, ⟨.header, []⟩⟩
  | some (.table .implied entries) =>
      let without ← document.descend false
        (fun parent => some ⟨parent.origin, Entries.remove parent.entries name⟩) path
      some ⟨without, .table path name, ⟨.header, entries⟩⟩
  | some _ => none

/-- Opens the section of a header in double brackets. -/
def openNextTable (document : Table) (path : List String) (name : String) : Option Draft := do
  let document ← document.descend false some path
  let parent ← tableAt? path document
  match Entries.find? parent.entries name with
  | none | some (.tables _) => some ⟨document, .nextTable path name, ⟨.header, []⟩⟩
  | some _ => none

/-- The draft after one more line. -/
def add (d : Draft) : Line → Option Draft
  | .blank => some d
  | .entry path name value => do
      let current ← d.current.insertAt? path name value
      some { d with current := current }
  | .table path name => do openTable (← d.finish) path name
  | .nextTable path name => do openNextTable (← d.finish) path name

end Draft

/-- The document that lines make up. -/
def assemble (lines : List Line) : Option Entries := do
  let draft ← lines.foldlM Draft.add Draft.empty
  return (← draft.finish).entries

/-- The top-level entries of a document; none if the text is not well-formed. -/
def parse (text : String) : Option Entries := do
  let (lines, rest) ← lines (withoutMark text.toList)
  if rest.isEmpty then assemble lines else none

end KWayMerge.Toml
