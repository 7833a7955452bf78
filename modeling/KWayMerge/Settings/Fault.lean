import KWayMerge.Fault

/-!
# What can be wrong with a settings file

A file may be unreadable, no well-formed document, or a document with the wrong content; and
well-read settings may still be invalid. Each cause is a constructor, with its wording in
`message`.
-/

namespace KWayMerge

/-- Why the text of a file could not be had. -/
inductive Unreadable where
  | notFound
  | invalidData
deriving DecidableEq, Repr

/-- What is wrong with the content of a well-formed document. -/
inductive ContentFault where
  | unknownField (name : String)
  | unknownVariant (name : String)
  /-- A direction that is neither a name nor a table of one name. -/
  | notNameOrTable
  | noElement
  | severalElements
  /-- A direction as a table whose name holds more than an empty table or array. -/
  | notEmptyTable
  | notEmptyArray
  | notTable (found : String)
  | negative (value : Int)
  /-- A value of another type in the place of a count. -/
  | wrongType (found : String)
  | badFanIn (fault : Fault)
deriving DecidableEq, Repr

/-- Why a settings file was refused. -/
inductive SettingsFault where
  | unreadable (cause : Unreadable)
  | malformed
  | content (fault : ContentFault)
  | invalid (fault : Fault)
deriving DecidableEq, Repr

/-- The text of a fault of content. -/
def ContentFault.message : ContentFault → String
  | .unknownField name =>
      "unknown field `" ++ name ++
        "`, expected one of `order`, `base_block`, `max_arity`"
  | .unknownVariant name =>
      "unknown variant `" ++ name ++ "`, expected `ascending` or `descending`"
  | .notNameOrTable => "wanted string or table"
  | .noElement => "wanted exactly 1 element, found 0 elements"
  | .severalElements => "wanted exactly 1 element, more than 1 element"
  | .notEmptyTable => "expected empty table"
  | .notEmptyArray => "expected empty array"
  | .notTable found => "expected table, found " ++ found
  | .negative value =>
      "invalid value: integer `" ++ toString value ++ "`, expected usize"
  | .wrongType found => "invalid type: " ++ found ++ ", expected usize"
  | .badFanIn fault => fault.message

/-- The text of a fault of settings that were read well. -/
def SettingsFault.invalidMessage (fault : Fault) : String :=
  "invalid config: " ++ fault.message

/-- The text of a fault of a settings file. -/
def SettingsFault.message : SettingsFault → String
  | .unreadable .notFound => "the settings file cannot be read"
  | .unreadable .invalidData => "the settings file is no text"
  | .malformed => "the settings file is not well-formed"
  | .content fault => fault.message
  | .invalid fault => SettingsFault.invalidMessage fault

end KWayMerge
