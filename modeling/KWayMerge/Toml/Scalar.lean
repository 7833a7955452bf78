import KWayMerge.Toml.Lexical
import KWayMerge.Toml.Value

/-!
# Numbers and dates of TOML

Integers are decimal with an optional sign, or hexadecimal, octal or binary without one; they
fit into 64 bits with a sign. A number with a fraction or an exponent is a float. Dates and
times have to exist in the calendar and on the clock.
-/

namespace KWayMerge.Toml

/-- Further digits, each of which may have one underscore in front. -/
def moreDigits (isDigit : Char → Bool) : List Char → List Char × List Char
  | '_' :: c :: rest =>
      if isDigit c then
        let (digits, last) := moreDigits isDigit rest
        (c :: digits, last)
      else
        ([], '_' :: c :: rest)
  | c :: rest =>
      if isDigit c then
        let (digits, last) := moreDigits isDigit rest
        (c :: digits, last)
      else
        ([], c :: rest)
  | [] => ([], [])

/-- One or more digits, with single underscores between them. -/
def digits (isDigit : Char → Bool) : Parser (List Char) := do
  let c ← satisfy isDigit
  let cs ← modifyGet (moreDigits isDigit)
  pure (c :: cs)

/-- The digits of a decimal number: no zero stands in front of others. -/
def decimalDigits : Parser (List Char) := do
  match ← peek? with
  | some '0' => do char '0'; pure ['0']
  | _ => digits Char.isDigit

/-- An optional sign; whether it is a minus. -/
def sign : Parser Bool := do
  match ← peek? with
  | some '-' => do char '-'; pure true
  | some '+' => do char '+'; pure false
  | _ => pure false

def signed (negative : Bool) (n : Nat) : Int :=
  if negative then -(n : Int) else n

/-- The largest integer of 64 bits with a sign. -/
def maxInteger : Int := 0x7fffffffffffffff

/-- The integer, if it fits into 64 bits. -/
def integerInRange (value : Int) : Parser Value :=
  if -maxInteger - 1 ≤ value ∧ value ≤ maxInteger then pure (.integer value) else failure

/-- Whether a character is a digit of a base. -/
def isDigitOf (base : Nat) (c : Char) : Bool :=
  match hexDigit? c with
  | some d => decide (d < base)
  | none => false

/-- An integer in another base, behind its mark. -/
def basedInteger (base : Nat) : Parser Value := do
  integerInRange (numberOf base (← digits (isDigitOf base)))

/-- An exponent: its sign and its number. -/
def exponent : Parser Int := do
  let _ ← satisfy fun c => c == 'e' || c == 'E'
  let negative ← sign
  return signed negative (numberOf 10 (← digits Char.isDigit))

/--
The float `whole.fraction * 10 ^ exponent`. One that is too large for a finite magnitude is
refused, unless it is negative.
-/
def floatOf (negative : Bool) (whole fraction : List Char) (exponent : Int) : Parser Value := do
  let places : Int := fraction.length
  let magnitude := Binary64.ofDecimal (numberOf 10 (whole ++ fraction)) (exponent - places)
  if magnitude = .infinite ∧ !negative then failure else pure (.float negative magnitude)

/-- An infinity or no number, behind its sign. -/
def specialFloat (negative : Bool) : Parser Value :=
  (do literal ['i', 'n', 'f']; pure (.float negative .infinite)) <|>
    (do literal ['n', 'a', 'n']; pure (.float negative .notANumber))

/-- A decimal integer or a float, behind its sign. -/
def decimalNumber (negative : Bool) : Parser Value := do
  let whole ← decimalDigits
  match ← peek? with
  | some '.' => do
      char '.'
      let fraction ← digits Char.isDigit
      match ← peek? with
      | some 'e' | some 'E' => do floatOf negative whole fraction (← exponent)
      | _ => floatOf negative whole fraction 0
  | some 'e' | some 'E' => do floatOf negative whole [] (← exponent)
  | _ => integerInRange (signed negative (numberOf 10 whole))

/-- A decimal number or a special float, with its sign. -/
def signedNumber : Parser Value := do
  let negative ← sign
  specialFloat negative <|> decimalNumber negative

/-- A number in any of its forms. -/
def number : Parser Value := fun s =>
  match s with
  | '0' :: 'x' :: rest => basedInteger 16 rest
  | '0' :: 'o' :: rest => basedInteger 8 rest
  | '0' :: 'b' :: rest => basedInteger 2 rest
  | _ => signedNumber s

/-! ## Dates and times -/

/-- A number of exactly so many digits between two bounds. -/
def fixedNumber (width low high : Nat) : Parser Nat := do
  let n := numberOf 10 (← exactly Char.isDigit width)
  if low ≤ n ∧ n ≤ high then pure n else failure

/-- The number of days of a month. -/
def daysIn (year month : Nat) : Nat :=
  let leap := year % 4 = 0 ∧ (year % 100 ≠ 0 ∨ year % 400 = 0)
  if month = 2 then (if leap then 29 else 28)
  else if month = 4 ∨ month = 6 ∨ month = 9 ∨ month = 11 then 30
  else 31

def date : Parser Unit := do
  let year ← fixedNumber 4 0 9999
  char '-'
  let month ← fixedNumber 2 1 12
  char '-'
  let _ ← fixedNumber 2 1 (daysIn year month)

/-- A time of day, to the second or below; a minute may have a leap second. -/
def time : Parser Unit := do
  let _ ← fixedNumber 2 0 23
  char ':'
  let _ ← fixedNumber 2 0 59
  char ':'
  let _ ← fixedNumber 2 0 60
  let _ ← optional do
    char '.'
    let c ← satisfy Char.isDigit
    return c :: (← takeWhile Char.isDigit)

/-- The offset of a time from universal time. -/
def timeOffset : Parser Unit := do
  match ← satisfy fun _ => true with
  | 'Z' | 'z' => pure ()
  | '+' | '-' => do
      let _ ← fixedNumber 2 0 23
      char ':'
      let _ ← fixedNumber 2 0 59
  | _ => failure

/-- A date, a time, or both with or without an offset; the value keeps the text. -/
def datetime : Parser Value := do
  let before ← get
  let dated : Parser Unit := do
    date
    let _ ← optional do
      let _ ← satisfy fun c => c == 'T' || c == 't' || c == ' '
      time
      optional timeOffset
  dated <|> time
  let after ← get
  pure (.datetime (String.ofList (before.take (before.length - after.length))))

end KWayMerge.Toml
