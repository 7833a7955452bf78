import KWayMerge.Toml.Document
import KWayMerge.Toml.Format

/-!
# Writing documents

Plain values are written on a line each, behind their key and an equals sign: a text between double
quotes, a count in decimal digits. Other values are not written.
-/

namespace KWayMerge.Toml

/-- The text of a plain value. -/
def Value.text? : Value → Option (List Char)
  | .string text =>
      if text.toList.all Toml.isPlain then some ('"' :: (text.toList ++ ['"'])) else none
  | .integer (.ofNat n) =>
      if (n : Int) ≤ maxInteger then some (Nat.toDigits 10 n) else none
  | _ => none

/-- A line with a key and the text of a value. -/
def lineChars (key : String) (text : List Char) : List Char :=
  key.toList ++ ' ' :: '=' :: ' ' :: (text ++ ['\n'])

def lineOf? (entry : String × Value) : Option (List Char) :=
  if isBare entry.1 then entry.2.text?.map (lineChars entry.1) else none

def write (entries : Entries) : Option String :=
  (entries.mapM lineOf?).map fun lines => String.ofList lines.flatten

/-- The format in which settings files are read and written. -/
def format : Format := ⟨parse, write⟩

end KWayMerge.Toml
