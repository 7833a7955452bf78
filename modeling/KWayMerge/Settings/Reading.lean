import KWayMerge.Settings.Basic
import KWayMerge.Settings.Fault
import KWayMerge.Text.Quoted
import KWayMerge.Number.Decimal
import KWayMerge.Toml.Format

/-!
# Reading settings

A settings file is a TOML document with up to three entries, each of which overrides a default.
The entries are taken in document order, and the first that is wrong decides the refusal; the
settings as a whole are validated after that.
-/

namespace KWayMerge

open Toml

/-- How a message describes a value that is no count. -/
def describeValue : Value → String
  | .string text => "string " ++ Text.quoted text
  | .integer value => "integer `" ++ toString value ++ "`"
  | .float negative magnitude =>
      let text := magnitude.shortestText
      let isFinite := match magnitude with
        | .finite .. => true
        | _ => false
      let point := if isFinite && !text.contains '.' then ".0" else ""
      let minus := if negative && magnitude != .notANumber then "-" else ""
      "floating point `" ++ minus ++ text ++ point ++ "`"
  | .boolean value => "boolean `" ++ toString value ++ "`"
  | .datetime _ | .table .. => "map"
  | .array _ | .tables _ => "sequence"

/-- The type of a value, as a message names it. -/
def typeName : Value → String
  | .string _ => "string"
  | .integer _ => "integer"
  | .float .. => "float"
  | .boolean _ => "boolean"
  | .datetime _ => "datetime"
  | .array _ => "array"
  | .table .inline _ => "inline table"
  | .table .. => "table"
  | .tables _ => "array of tables"

/-- A count: an integer that is not negative. -/
def readCount : Value → Except ContentFault Nat
  | .integer (.ofNat n) => .ok n
  | .integer value => .error (.negative value)
  | other => .error (.wrongType (describeValue other))

/-- A fan-in, given as its number of runs. -/
def readFanIn (value : Value) : Except ContentFault FanIn :=
  match readCount value with
  | .error fault => .error fault
  | .ok n =>
      match FanIn.ofCount n with
      | .error fault => .error (.badFanIn fault)
      | .ok fanIn => .ok fanIn

def readDirectionName (name : String) : Except ContentFault Direction :=
  match Direction.ofName? name with
  | none => .error (.unknownVariant name)
  | some direction => .ok direction

/-- What may stand under the name of a direction: an empty table or array. -/
def readNothing : Value → Except ContentFault Unit
  | .table _ entries => if entries.isEmpty then .ok () else .error .notEmptyTable
  | .array items => if items.isEmpty then .ok () else .error .notEmptyArray
  | .tables items => if items.isEmpty then .ok () else .error .notEmptyArray
  | other => .error (.notTable (typeName other))

/-- A direction: its name, or a table with its name as the only key and nothing under it. -/
def readDirection : Value → Except ContentFault Direction
  | .string name => readDirectionName name
  | .table _ [] => .error .noElement
  | .table _ [(name, content)] => do
      let direction ← readDirectionName name
      readNothing content
      return direction
  | .table .. => .error .severalElements
  | _ => .error .notNameOrTable

namespace Settings

/-- The settings with one entry of a document put over them. -/
def override (s : Settings) (entry : String × Value) : Except ContentFault Settings :=
  match entry with
  | ("order", value) => (readDirection value).map fun d => { s with direction := d }
  | ("base_block", value) => (readCount value).map fun n => { s with baseBlock := n }
  | ("max_arity", value) => (readFanIn value).map fun f => { s with fanIn := f }
  | (name, _) => .error (.unknownField name)

/-- The settings that the entries of a document put over the defaults. -/
def ofEntries (entries : Entries) : Except ContentFault Settings :=
  entries.foldlM override .default

/-- The settings written in a text. -/
def ofText (f : Format) (text : String) : Except SettingsFault Settings :=
  match f.read text with
  | none => .error .malformed
  | some entries =>
      match ofEntries entries with
      | .error fault => .error (.content fault)
      | .ok s =>
          match s.validate with
          | .error fault => .error (.invalid fault)
          | .ok () => .ok s

/-- The settings in a file with these bytes; none if there is no such file. -/
def ofFile (f : Format) : Option ByteArray → Except SettingsFault Settings
  | none => .error (.unreadable .notFound)
  | some bytes =>
      match String.fromUTF8? bytes with
      | none => .error (.unreadable .invalidData)
      | some text => ofText f text

end Settings
end KWayMerge
