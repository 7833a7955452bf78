import KWayMerge.Text.Digit
import KWayMerge.Text.Letter

/-!
# Patterns

A pattern describes texts. Its characters stand for themselves, but for those that form classes
of characters, groups, alternatives, repetitions, and edges of texts and words. `isPattern`
decides which texts are patterns.

A pattern is read from left to right, and flags change how the rest of a group is read. Nothing
is known about the cases of letters, and about which characters beyond ASCII are digits, blanks
or parts of words; a pattern that asks for it is refused. So is one that could match a part of a
character. Repetitions are `?`, `*` and `+`; a count between braces is no part of a pattern.
-/

namespace KWayMerge

/-- How a part of a pattern is read. -/
structure PatternMode where
  anyCase : Bool
  /-- Classes, and the edges of words, go by all characters and not by ASCII alone. -/
  wide : Bool
  spaced : Bool
deriving DecidableEq, Repr

/-- A part of a pattern that has no parts. -/
inductive PatternAtom where
  | literal (c : Char)
  | byte (c : Char)
  | anyChar
  /-- An end of the text or of a line. -/
  | edge
  /-- A place where a word begins or ends, or where none does. -/
  | wordEdge
  /-- The digits, blanks, or parts of words, or all other characters. -/
  | kind (negated : Bool)
deriving DecidableEq, Repr

namespace PatternMode

/-- How a pattern is read at its start. -/
def start : PatternMode := ⟨false, true, false⟩

/-- The text behind blanks and behind comments, which run from a number sign to a line end. -/
def pastBlanks : (inComment : Bool) → List Char → List Char
  | _, [] => []
  | true, c :: rest => pastBlanks (c != '\n') rest
  | false, c :: rest =>
      if c == '#' then pastBlanks true rest
      else if Text.isBlank c then pastBlanks false rest
      else c :: rest

/-- The text from the next character on that stands for something. -/
def next (m : PatternMode) (text : List Char) : List Char :=
  if m.spaced then pastBlanks false text else text

/-- Whether a class of characters, or all others, can be told. -/
def tells (m : PatternMode) (negated : Bool) : Bool :=
  if m.wide then !m.anyCase else !negated

/-- Whether an atom can stand outside of classes. -/
def admits (m : PatternMode) : PatternAtom → Bool
  | .literal _ => !(m.wide && m.anyCase)
  | .byte c => if m.wide then !m.anyCase else c.toNat ≤ 0x7f
  | .anyChar => m.wide
  | .edge => true
  | .wordEdge => !m.wide
  | .kind negated => !m.wide && !negated

/-- Whether an atom can stand in a class. -/
def admitsMember (m : PatternMode) : PatternAtom → Bool
  | .literal c | .byte c => if m.wide then !m.anyCase else c.toNat ≤ 0x7f
  | .kind negated => !m.wide && !negated
  | _ => false

/-! ## Atoms -/

/-- The number that so many hexadecimal digits spell behind those of `value`. -/
def hexNumber? (m : PatternMode) : (digits value : Nat) → List Char → Option (Nat × List Char)
  | 0, value, text => some (value, text)
  | digits + 1, value, text =>
      match m.next text with
      | [] => none
      | c :: rest => do hexNumber? m digits (16 * value + (← hexDigit? c)) rest

/-- The character with a number of so many hexadecimal digits. -/
def numbered? (m : PatternMode) (digits : Nat) (text : List Char) :
    Option (Char × List Char) := do
  let (n, rest) ← m.hexNumber? digits 0 text
  if n.isValidChar then some (Char.ofNat n, rest) else none

/-- The character that another stands for behind a backslash. -/
def escapedChar? (c : Char) : Option Char :=
  match c with
  | 'a' => some '\x07'
  | 'f' => some '\x0c'
  | 't' => some '\t'
  | 'n' => some '\n'
  | 'r' => some '\r'
  | 'v' => some '\x0b'
  | _ => if c.toNat ≤ 0x7f && !c.isAlphanum then some c else none

def escaped? (m : PatternMode) : List Char → Option (PatternAtom × List Char)
  | [] => none
  | c :: rest =>
      match c with
      | 'x' => (m.numbered? 2 rest).map fun (d, rest) => (.byte d, rest)
      | 'u' => (m.numbered? 4 rest).map fun (d, rest) => (.literal d, rest)
      | 'U' => (m.numbered? 8 rest).map fun (d, rest) => (.literal d, rest)
      | 'd' | 's' | 'w' => some (.kind false, rest)
      | 'D' | 'S' | 'W' => some (.kind true, rest)
      | 'A' | 'z' => some (.edge, rest)
      | 'b' | 'B' | '<' | '>' => some (.wordEdge, rest)
      | _ => (escapedChar? c).map fun d => (.literal d, rest)

/-- The atom at the start of a text outside of classes. -/
def atom? (m : PatternMode) : List Char → Option (PatternAtom × List Char)
  | [] => none
  | '\\' :: rest => m.escaped? rest
  | '.' :: rest => some (.anyChar, rest)
  | '^' :: rest | '$' :: rest => some (.edge, rest)
  | c :: rest => some (.literal c, rest)

/-- The text behind an atom outside of classes. -/
def pastAtom? (m : PatternMode) (text : List Char) : Option (List Char) := do
  let (atom, rest) ← m.atom? text
  if m.admits atom then some rest else none

/-! ## Classes -/

def classNames : List String :=
  ["alnum", "alpha", "ascii", "blank", "cntrl", "digit", "graph", "lower", "print", "punct",
    "space", "upper", "word", "xdigit"]

/-- The rest of a class by its name, behind the bracket; whether it is negated. -/
def named? : List Char → Option (Bool × List Char)
  | ':' :: rest =>
      let negated := rest.head? == some '^'
      let (name, rest) := (if negated then rest.drop 1 else rest).span fun c => c != ':'
      match rest with
      | ':' :: ']' :: last =>
          if classNames.contains (String.ofList name) then some (negated, last) else none
      | _ => none
  | _ => none

/-- The atom at the start of a text in a class. -/
def memberAtom? (m : PatternMode) : List Char → Option (PatternAtom × List Char)
  | [] => none
  | '\\' :: rest => m.escaped? rest
  | c :: rest => some (.literal c, rest)

/-- Whether two atoms are the ends of a range. -/
def isRange (low high : PatternAtom) : Bool :=
  match low, high with
  | .literal a, .literal b | .literal a, .byte b | .byte a, .literal b | .byte a, .byte b =>
      a ≤ b
  | _, _ => false

/-- The text behind an atom in a class, or behind a range of characters. -/
def pastMember? (m : PatternMode) (text : List Char) : Option (List Char) := do
  let (low, rest) ← m.memberAtom? text
  if !m.admitsMember low then none
  else
    match m.next rest with
    | '-' :: after =>
        match m.next after with
        | [] => none
        | ']' :: _ | '-' :: _ => some ('-' :: after)
        | upper => do
            let (high, last) ← m.memberAtom? upper
            if m.admitsMember high && isRange low high then some last else none
    | last => some last

/-- A place in a class. -/
inductive ClassPlace where
  | first
  | dashes
  | inside
deriving DecidableEq, Repr

/-- The text behind the opening of a class. -/
def pastOpening? (m : PatternMode) (text : List Char) : Option (List Char) :=
  match m.next text with
  | '^' :: rest => if m.wide then some rest else none
  | rest => some rest

/--
The text behind the end of a class, inside so many others. A closing bracket at the beginning of
a class and dashes there stand for themselves.
-/
def pastClass? (m : PatternMode) :
    (steps depth : Nat) → ClassPlace → List Char → Option (List Char)
  | 0, _, _, _ => none
  | steps + 1, depth, place, text =>
      let item := m.next text
      match place, item with
      | .first, '-' :: rest | .dashes, '-' :: rest =>
          if m.admitsMember (.literal '-') then m.pastClass? steps depth .dashes rest else none
      | .first, ']' :: rest =>
          if m.admitsMember (.literal ']') then m.pastClass? steps depth .inside rest else none
      | _, '[' :: rest =>
          match named? rest with
          | some (negated, last) =>
              if m.tells negated then m.pastClass? steps depth .inside last else none
          | none => (m.pastOpening? rest).bind (m.pastClass? steps (depth + 1) .first)
      | _, ']' :: rest =>
          match depth with
          | 0 => some rest
          | depth + 1 => m.pastClass? steps depth .inside rest
      | _, '&' :: '&' :: rest | _, '-' :: '-' :: rest | _, '~' :: '~' :: rest =>
          m.pastClass? steps depth .inside rest
      | _, _ => (m.pastMember? item).bind (m.pastClass? steps depth .inside)

/-! ## Flags -/

/-- The flags, and the dash in front of those that are taken back. -/
def flagChars : List Char := ['i', 'm', 's', 'U', 'u', 'R', 'x', '-']

/--
The flags behind a question mark, each at most once; whether a group begins behind them; and the
rest.
-/
def flags? (seen : List Char) : List Char → Option (List Char × Bool × List Char)
  | [] => none
  | c :: rest =>
      if c == ':' || c == ')' then
        if seen.getLast? == some '-' then none else some (seen, c == ':', rest)
      else if flagChars.contains c && !seen.contains c then
        flags? (seen ++ [c]) rest
      else
        none

/-- The setting of a flag, if it is among those set or taken back. -/
def setting (flags : List Char) (flag : Char) (before : Bool) : Bool :=
  let (set, unset) := flags.span fun c => c != '-'
  set.contains flag || (before && !unset.contains flag)

/-- The mode that flags lead to. -/
def changed (m : PatternMode) (flags : List Char) : PatternMode :=
  ⟨setting flags 'i' m.anyCase, setting flags 'u' m.wide, setting flags 'x' m.spaced⟩

end PatternMode

/-! ## Whole patterns -/

/-- What has been read of a pattern. -/
structure PatternProgress where
  mode : PatternMode
  repeatable : Bool
  /-- The modes around the groups that are open, from the innermost. -/
  around : List PatternMode
  names : List (List Char)
deriving DecidableEq, Repr

namespace PatternProgress

def start : PatternProgress := ⟨.start, false, [], []⟩

/-- Behind the beginning of a group that is read in a mode. -/
def inGroup (p : PatternProgress) (m : PatternMode) : PatternProgress :=
  { p with mode := m, repeatable := false, around := p.mode :: p.around }

/-- The name of a group, and the text behind it. -/
def groupName? (text : List Char) : Option (List Char × List Char) :=
  let isNameChar (c : Char) : Bool :=
    ['_', '.', '[', ']'].contains c || Text.isLetter c || Text.isNumeral c
  match text.span isNameChar with
  | (first :: name, '>' :: last) =>
      if first == '_' || Text.isLetter first then some (first :: name, last) else none
  | _ => none

/-- Behind the name of a group, which no other group has. -/
def pastName? (p : PatternProgress) (text : List Char) :
    Option (PatternProgress × List Char) := do
  let (name, rest) ← groupName? text
  if p.names.contains name then none
  else some ({ p.inGroup p.mode with names := name :: p.names }, rest)

/-- Behind an opening parenthesis, which begins a group or holds flags. -/
def pastOpening? (p : PatternProgress) (text : List Char) :
    Option (PatternProgress × List Char) :=
  match p.mode.next text with
  | '?' :: 'P' :: '<' :: rest | '?' :: '<' :: rest => p.pastName? rest
  | '?' :: rest => do
      let (flags, isGroup, last) ← PatternMode.flags? [] rest
      let mode := p.mode.changed flags
      if isGroup then some (p.inGroup mode, last)
      else if flags.isEmpty then none
      else some ({ p with mode := mode, repeatable := false }, last)
  | rest => some (p.inGroup p.mode, rest)

/-- The text behind the question mark of a repetition that takes as little as it can. -/
def pastLazy : List Char → List Char
  | '?' :: rest => rest
  | rest => rest

/-- Whether the rest of a pattern completes what has been read, in so many steps. -/
def completes : (steps : Nat) → PatternProgress → List Char → Bool
  | 0, _, _ => false
  | steps + 1, p, text =>
      let item := p.mode.next text
      match item with
      | [] => p.around.isEmpty
      | '(' :: rest =>
          match p.pastOpening? rest with
          | some (p, rest) => completes steps p rest
          | none => false
      | ')' :: rest =>
          match p.around with
          | [] => false
          | outer :: around =>
              completes steps { p with mode := outer, repeatable := true, around := around } rest
      | '|' :: rest => completes steps { p with repeatable := false } rest
      | '?' :: rest | '*' :: rest | '+' :: rest =>
          p.repeatable && completes steps p (pastLazy rest)
      | '\x7b' :: _ => false
      | '[' :: rest =>
          match (p.mode.pastOpening? rest).bind
              (p.mode.pastClass? (rest.length + 1) 0 .first) with
          | some rest => completes steps { p with repeatable := true } rest
          | none => false
      | _ =>
          match p.mode.pastAtom? item with
          | some rest => completes steps { p with repeatable := true } rest
          | none => false

end PatternProgress

/-- Whether a text is a pattern. Each step takes a character, so one more than there are suffice. -/
def isPattern (text : List Char) : Bool :=
  PatternProgress.completes (text.length + 1) .start text

end KWayMerge
