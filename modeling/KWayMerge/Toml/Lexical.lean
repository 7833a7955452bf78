import KWayMerge.Text.Digit

/-!
# Characters, keys and strings of TOML

A reader takes a prefix of the characters, or refuses them. What is read here is what a document
is made of below the level of values: space, line ends, comments, keys and strings.

**Results.** `manyUntil` is the one loop of the readers; it ends because each round takes at least
one character.
-/

namespace KWayMerge.Toml

/-- Takes a prefix of the characters, or refuses them. -/
abbrev Parser := StateT (List Char) Option

section Readers

variable {α : Type}

/-- The next character, if it passes the test. -/
def satisfy (test : Char → Bool) : Parser Char
  | [] => none
  | c :: rest => if test c then some (c, rest) else none

def char (c : Char) : Parser Unit
  | [] => none
  | d :: rest => if d = c then some ((), rest) else none

def literal : List Char → Parser Unit
  | [] => pure ()
  | c :: cs => do char c; literal cs

/-- The next character, which stays; none at the end. -/
def peek? : Parser (Option Char) := fun s =>
  some (s.head?, s)

/-- All characters that pass the test, up to the first that does not. -/
def takeWhile (test : Char → Bool) : Parser (List Char) := fun s =>
  some (s.takeWhile test, s.dropWhile test)

/-- So many characters that all pass the test. -/
def exactly (test : Char → Bool) : Nat → Parser (List Char)
  | 0 => pure []
  | n + 1 => do
      let c ← satisfy test
      let cs ← exactly test n
      pure (c :: cs)

/-- What the reader takes, or nothing. -/
def optional (p : Parser α) : Parser (Option α) := fun s =>
  match p s with
  | some (a, rest) => some (some a, rest)
  | none => some (none, s)

/-- The elements that `step` gives until it gives none; each has to take a character. -/
def manyUntil (step : Parser (Option α)) (s : List Char) : Option (List α × List Char) :=
  match step s with
  | none => none
  | some (none, rest) => some ([], rest)
  | some (some a, rest) =>
      if _h : rest.length < s.length then
        match manyUntil step rest with
        | none => none
        | some (as, last) => some (a :: as, last)
      else
        none
termination_by s.length

end Readers

/-! ## Space, line ends and comments -/

def isBlank (c : Char) : Bool :=
  c == ' ' || c == '\t'

/-- A character that may stand in a comment: a tab, or anything that is no control character. -/
def isText (c : Char) : Bool :=
  c == '\t' || (' ' ≤ c && c != '\x7f')

def blanks : Parser Unit := do
  let _ ← takeWhile isBlank
  pure ()

/-- A line feed, or a carriage return with a line feed. -/
def newline : Parser Unit
  | '\n' :: rest => some ((), rest)
  | '\r' :: '\n' :: rest => some ((), rest)
  | _ => none

/-- A line end, or the end of the document. -/
def lineEnd : Parser Unit
  | [] => some ((), [])
  | s => newline s

/-- A comment, up to the end of its line. -/
def comment : Parser Unit := do
  char '#'
  let _ ← takeWhile isText
  pure ()

/-- What may follow on the line of a key or a header. -/
def lineRest : Parser Unit := do
  blanks
  let _ ← optional comment
  lineEnd

/-- The characters after all blanks and line ends at the front. -/
def skipBlankLines : List Char → List Char
  | ' ' :: rest => skipBlankLines rest
  | '\t' :: rest => skipBlankLines rest
  | '\n' :: rest => skipBlankLines rest
  | '\r' :: '\n' :: rest => skipBlankLines rest
  | s => s

/-- Blanks, line ends and whole-line comments, as between the items of an array. -/
def blankLines : Parser Unit := do
  let _ ← manyUntil do
    blanks
    match ← peek? with
    | some '#' => do comment; newline; pure (some ())
    | some '\n' | some '\r' => do newline; pure (some ())
    | _ => pure none
  pure ()

/-! ## Strings -/

/-- The character with a number of so many hexadecimal digits. -/
def numberedChar (digits : Nat) : Parser Char := do
  let n := numberOf 16 (← exactly (fun c => (hexDigit? c).isSome) digits)
  if n.isValidChar then pure (Char.ofNat n) else failure

/-- The character that an escape stands for, behind its backslash. -/
def escaped : Parser Char := do
  match ← satisfy fun _ => true with
  | 'b' => pure '\x08'
  | 't' => pure '\t'
  | 'n' => pure '\n'
  | 'f' => pure '\x0c'
  | 'r' => pure '\r'
  | '"' => pure '"'
  | '\\' => pure '\\'
  | 'u' => numberedChar 4
  | 'U' => numberedChar 8
  | _ => failure

/-- A string on one line between double quotes. -/
def basicString : Parser (List Char) := do
  char '"'
  manyUntil do
    match ← satisfy isText with
    | '"' => pure none
    | '\\' => do return some (← escaped)
    | c => pure (some c)

/-- A string on one line between single quotes, without escapes. -/
def literalString : Parser (List Char) := do
  char '\''
  manyUntil do
    match ← satisfy isText with
    | '\'' => pure none
    | c => pure (some c)

/--
Quotes inside a string that ends with three of them: one or two belong to the string, and so do
one or two in front of the last three. None at the end of the string.
-/
def innerQuotes (quote : Char) : Parser (Option (List Char)) := fun s =>
  let run := (s.takeWhile fun c => c == quote).length
  if run ≤ 2 then some (some (List.replicate run quote), s.drop run)
  else if run = 3 then some (none, s.drop 3)
  else if run ≤ 5 then some (some (List.replicate (run - 3) quote), s.drop (run - 3))
  else none

/-- A backslash at the end of a line, with all space behind it. -/
def foldedLine : Parser Unit := do
  char '\\'
  blanks
  newline
  modify skipBlankLines

/-- The body of a string over several lines, up to the three quotes at its end. -/
def linesUntil (quote : Char) (piece : Parser (List Char)) : Parser (List Char) := do
  let _ ← optional newline
  let pieces ← manyUntil do
    match ← peek? with
    | none => failure
    | some '\n' | some '\r' => do newline; pure (some ['\n'])
    | some c =>
        if c = quote then innerQuotes quote else do return some (← piece)
  pure pieces.flatten

/-- A string over several lines between three double quotes. -/
def basicLines : Parser (List Char) := do
  literal ['"', '"', '"']
  linesUntil '"' do
    match ← peek? with
    | some '\\' => (do foldedLine; pure []) <|> (do char '\\'; return [← escaped])
    | _ => do return [← satisfy isText]

/-- A string over several lines between three single quotes, without escapes. -/
def literalLines : Parser (List Char) := do
  literal ['\'', '\'', '\'']
  linesUntil '\'' do return [← satisfy isText]

/-- A string in any of its forms. -/
def string : Parser String := do
  let text ← basicLines <|> basicString <|> literalLines <|> literalString
  pure (String.ofList text)

/-! ## Keys -/

/-- A character that needs no quotes in a key. -/
def isBareKey (c : Char) : Bool :=
  c.isAlphanum || c == '-' || c == '_'

def simpleKey : Parser String := do
  match ← peek? with
  | some '"' => do return String.ofList (← basicString)
  | some '\'' => do return String.ofList (← literalString)
  | _ =>
      let text ← takeWhile isBareKey
      if text.isEmpty then failure else pure (String.ofList text)

/-- The most parts of a key, and one more than the values that may stand inside one another. -/
def nestingLimit : Nat := 80

/-- A key of one or more parts with points between: the path to it, and its last part. -/
def key : Parser (List String × String) := do
  blanks
  let first ← simpleKey
  blanks
  let others ← manyUntil do
    match ← peek? with
    | some '.' => do
        char '.'
        blanks
        let part ← simpleKey
        blanks
        pure (some part)
    | _ => pure none
  if nestingLimit ≤ others.length + 1 then
    failure
  else
    match others.getLast? with
    | none => pure ([], first)
    | some last => pure (first :: others.dropLast, last)

end KWayMerge.Toml
