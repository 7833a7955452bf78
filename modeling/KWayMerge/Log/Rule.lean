import KWayMerge.Log.Pattern
import KWayMerge.Log.Record
import KWayMerge.Text.Bytes

/-!
# Rules for log records

A rule names the records that it is for and the least level of those that are written:
`target[span{field=value}]=level`. A level alone is for all records, and without a level all
records of the target are written.

A rule is scanned without the blanks around it, while its pieces are cut from the whole text at
the places that the scan finds. So blanks in front shift the pieces, and a shifted place inside
a character tears the text.
-/

namespace KWayMerge

/-- Which of the records of its targets a rule is for. -/
inductive RuleScope where
  | every
  | withField (name : String)
  /-- Those inside a span by its name or by the value of a field; this program has no spans. -/
  | inSpan
deriving DecidableEq, Repr

/-- Decides which records of some targets are written. -/
structure LogRule where
  target : String
  threshold : Option LogLevel
  scope : RuleScope
deriving DecidableEq, Repr

/-- Why a text is not a rule. -/
inductive RuleFault where
  /-- It has not the form of a rule. -/
  | senseless
  /-- A piece of it begins or ends inside a character. -/
  | torn
deriving DecidableEq, Repr

namespace LogRule

/-! ## Levels -/

/-- A level by its number: none, or all from the errors on down to the traces. -/
def numberedLevel? : Nat → Option (Option LogLevel)
  | 0 => some none
  | 1 => some (some .error)
  | 2 => some (some .warn)
  | 3 => some (some .info)
  | 4 => some (some .debug)
  | 5 => some (some .trace)
  | _ => none

/-- A level by its name in any mixture of cases. -/
def namedLevel? (text : List Char) : Option (Option LogLevel) :=
  match String.ofList (text.map Char.toLower) with
  | "off" => some none
  | "error" => some (some .error)
  | "warn" => some (some .warn)
  | "info" => some (some .info)
  | "debug" => some (some .debug)
  | "trace" => some (some .trace)
  | _ => none

/-- A number of decimal digits, perhaps behind a plus. -/
def number? (text : List Char) : Option Nat :=
  let digits := if text.head? == some '+' then text.drop 1 else text
  if !digits.isEmpty && digits.all Char.isDigit then some (numberOf 10 digits) else none

/-- A level by its number or its name. -/
def level? (text : List Char) : Option (Option LogLevel) :=
  match number? text with
  | some n => numberedLevel? n
  | none => namedLevel? text

/-! ## Fields -/

/-- Whether a text is a decimal number with an exponent or without, or the name of one. -/
def isNumber (text : List Char) : Bool :=
  let isExponent (c : Char) : Bool := c == 'e' || c == 'E'
  let (mantissa, exponent) := text.span fun c => !isExponent c
  let (whole, fraction) := mantissa.span fun c => c != '.'
  let digits := whole ++ fraction.drop 1
  let power := exponent.drop 1
  let powerDigits := match power with
    | '+' :: rest | '-' :: rest => rest
    | rest => rest
  (!digits.isEmpty && digits.all Char.isDigit &&
    (exponent.isEmpty || !powerDigits.isEmpty && powerDigits.all Char.isDigit)) ||
  ["inf", "infinity", "nan"].contains (String.ofList (text.map Char.toLower))

/-- Whether a text can be asked of a field: a number behind a plus, or a pattern. -/
def isFieldValue : List Char → Bool
  | '+' :: rest => isNumber rest
  | text => isPattern text

/-- The records with a field by its text, which may ask for a value behind an equals sign. -/
def fieldScope? (text : List Char) : Option RuleScope :=
  if text.isEmpty then none
  else
    match text.span fun c => c != '=' with
    | (name, []) => some (.withField (String.ofList name))
    | (_, _ :: rest) =>
        if isFieldValue (rest.takeWhile fun c => c != '=') then some .inSpan else none

/-! ## Rules -/

/-- Whether a rule can start with a character, if not with a span. -/
def isStart (c : Char) : Bool :=
  ['-', ':', '_'].contains c || Text.isLetter c || Text.isNumeral c

/-- The rule of a text without equals sign and span: a level for all, or a target for all levels. -/
def ofWord (text : List Char) : LogRule :=
  match level? text with
  | some threshold => ⟨"", threshold, .every⟩
  | none => ⟨String.ofList text, some .trace, .every⟩

/-- A piece of a rule's text. -/
def piece (text : List Char) (first last : Nat) : Except RuleFault (List Char) :=
  match Text.cut? first last text with
  | some piece => .ok piece
  | none => .error .torn

/-- The level behind an equals sign, which ends at a place; all levels if nothing is there. -/
def levelFrom (text : List Char) (place : Nat) : Except RuleFault (Option LogLevel) := do
  match ← piece text place (Text.byteLength text) with
  | [] => return some .trace
  | name =>
      match level? name with
      | some threshold => return threshold
      | none => throw .senseless

/-- The level that `rest` leads to, which a place is before. -/
def levelIn (text : List Char) (place : Nat) (rest : List Char) :
    Except RuleFault (Option LogLevel) :=
  match rest with
  | [] => .ok (some .trace)
  | '=' :: _ => levelFrom text (place + 1)
  | _ => .error .senseless

/--
The rule for targets whose span, behind its bracket, is in `inner`; a place is before that. The
name of a span ends at a field in braces or at the closing bracket.
-/
def ofSpan (text : List Char) (target : List Char) (place : Nat) (inner : List Char) :
    Except RuleFault LogRule := do
  let (name, rest) := inner.span fun c => c != ']' && c != '\x7b'
  let nameEnd := place + Text.byteLength name
  match rest with
  | [] => throw .senseless
  | ']' :: last =>
      let _ ← piece text place nameEnd
      return ⟨String.ofList target, ← levelIn text (nameEnd + 1) last, .inSpan⟩
  | _ :: fieldRest =>
      let named := !(← piece text place nameEnd).isEmpty
      let (field, last) := fieldRest.span fun c => c != '\x7d'
      let fieldEnd := nameEnd + 1 + Text.byteLength field
      match last with
      | [] => throw .senseless
      | _ :: last =>
          match fieldScope? (← piece text (nameEnd + 1) fieldEnd), last with
          | some scope, ']' :: last =>
              let threshold ← levelIn text (fieldEnd + 2) last
              return ⟨String.ofList target, threshold, if named then .inSpan else scope⟩
          | _, _ => throw .senseless

def ofText (text : List Char) : Except RuleFault LogRule := do
  let (head, rest) := (Text.trimmed text).span fun c => c != '=' && c != '['
  let headEnd := Text.byteLength head
  match head, rest with
  | [], '[' :: inner => ofSpan text [] 1 inner
  | [], _ => throw .senseless
  | first :: _, rest =>
      if !isStart first then throw .senseless
      match rest with
      | [] => return ofWord text
      | '[' :: inner => ofSpan text (← piece text 0 headEnd) (headEnd + 1) inner
      | _ =>
          let target ← piece text 0 headEnd
          return ⟨String.ofList target, ← levelFrom text (headEnd + 1), .every⟩

/-! ## Which rule decides -/

/-- Whether a rule is for a record. -/
def covers (rule : LogRule) (record : LogRecord) : Bool :=
  rule.target.toList.isPrefixOf record.target.toList &&
    match rule.scope with
    | .every => true
    | .withField name => record.fieldNames.contains name
    | .inSpan => false

/-- Whether a rule lets records of a level be written. -/
def admits (rule : LogRule) (level : LogLevel) : Bool :=
  match rule.threshold with
  | none => false
  | some least => least.severity ≤ level.severity

/--
Whether a rule gives way to a later one that is for the same record: one with a target at least
as long, and of the same target one for a field, by the order of their names.
-/
def givesWayTo (rule later : LogRule) : Bool :=
  if rule.target.length = later.target.length then
    match rule.scope, later.scope with
    | .withField a, .withField b => !(b < a)
    | .withField _, _ => false
    | _, _ => true
  else
    rule.target.length < later.target.length

end LogRule
end KWayMerge
