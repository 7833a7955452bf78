/-!
# Log records

A record has a level, the name of the part that reports it, a message, and named fields. Its
text is the message followed by the fields.
-/

namespace KWayMerge

/-- How much a record matters, from the least. -/
inductive LogLevel where
  | trace
  | debug
  | info
  | warn
  | error
deriving DecidableEq, Repr

namespace LogLevel

/-- The place of a level among the levels; a larger one matters more. -/
def severity : LogLevel → Nat
  | .trace => 0
  | .debug => 1
  | .info => 2
  | .warn => 3
  | .error => 4

/-- The written name of a level. -/
def name : LogLevel → String
  | .trace => "TRACE"
  | .debug => "DEBUG"
  | .info => "INFO"
  | .warn => "WARN"
  | .error => "ERROR"

end LogLevel

/-- The value of a field. -/
inductive LogValue where
  | count (n : Nat)
  | text (s : String)
deriving DecidableEq, Repr

/-- How a value is written behind its name. -/
def LogValue.toText : LogValue → String
  | .count n => toString n
  | .text s => s

/-- One report of a running program. -/
structure LogRecord where
  level : LogLevel
  target : String
  message : String
  fields : List (String × LogValue)
deriving DecidableEq, Repr

namespace LogRecord

/-- The names of the fields; the message is one of them. -/
def fieldNames (r : LogRecord) : List String :=
  "message" :: r.fields.map Prod.fst

/-- The message, then each field as `name=value`. -/
def text (r : LogRecord) : String :=
  r.fields.foldl
    (fun line field => line ++ " " ++ field.1 ++ "=" ++ field.2.toText) r.message

end LogRecord
end KWayMerge
