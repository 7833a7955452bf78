import KWayMerge.Count
import KWayMerge.Key.Basic

/-!
# Command line

Every option takes a value. The value stands in the same argument, behind an equals sign or
directly behind a short name, or it is the next argument. A value that stands in an argument of
its own is only looked at when the next option is found or the line ends, and an option or
argument that is not known is refused before that.
-/

namespace KWayMerge

/-- What a benchmark is to do. -/
structure Options where
  config : Option String
  k : Nat
  /-- The smallest input size, as a power of two. -/
  minLog : Nat
  /-- The largest input size, as a power of two. -/
  maxLog : Nat
  /-- The length of a row in the benchmark of rows. -/
  rowLen : Nat
  order : Option Direction
deriving DecidableEq, Repr

/-- An option by its name. -/
inductive OptionName where
  | config
  | k
  | minLog
  | maxLog
  | rowLen
  | order
deriving DecidableEq, Repr

/-- Why a command line gives no options. -/
inductive Refusal where
  /-- An option that is not known, or an argument that belongs to none. -/
  | unknownArgument
  | missingValue
  /-- A value that the option does not take. -/
  | badValue
  | repeated
  /-- A value for a request that takes none. -/
  | unexpectedValue
  | helpRequested
deriving DecidableEq, Repr

namespace Refusal

def message : Refusal → String
  | .unknownArgument => "an argument is not known"
  | .missingValue => "an option is without its value"
  | .badValue => "an option has a value that it does not take"
  | .repeated => "an option is given twice"
  | .unexpectedValue => "a value is given where none is taken"
  | .helpRequested =>
      "  -c, --config FILE        settings file\n" ++
        "  -k, --k N                elements to select (1000)\n" ++
        "      --min-lg-size N      smallest input size, as a power of two (10)\n" ++
        "      --max-lg-size N      largest input size, as a power of two (22)\n" ++
        "      --row-len N          row length of the benchmark of rows (1024)\n" ++
        "      --order DIRECTION    ascending or descending, over the settings\n" ++
        "  -h, --help               this text"

end Refusal

namespace Options

/-- The options of an empty command line. -/
def default : Options := ⟨none, 1000, 10, 22, 1024, none⟩

/-- The digits of a natural number, at least one. -/
def decimal? (digits : List Char) : Option Nat :=
  if digits.isEmpty then
    none
  else if digits.all Char.isDigit then
    some (digits.foldl (fun n c => 10 * n + (c.toNat - '0'.toNat)) 0)
  else
    none

/-- A number with an optional plus sign that fits into 64 bits. -/
def word? (text : String) : Option Nat := do
  let n ← match text.toList with
    | '+' :: digits => decimal? digits
    | digits => decimal? digits
  if n ≤ maxWord then some n else none

/-- A number with an optional sign that fits into 32 bits. -/
def halfWord? (text : String) : Option Nat := do
  let n ← match text.toList with
    | '+' :: digits => decimal? digits
    | '-' :: digits => (decimal? digits).filter fun n => n == 0
    | digits => decimal? digits
  if n ≤ maxHalfWord then some n else none

/-- Sets an option to a value given as text, if it takes it. -/
def set? (o : Options) (name : OptionName) (value : String) : Option Options :=
  match name with
  | .config => some { o with config := some value }
  | .k => (word? value).map fun n => { o with k := n }
  | .minLog => (halfWord? value).map fun n => { o with minLog := n }
  | .maxLog => (halfWord? value).map fun n => { o with maxLog := n }
  | .rowLen => (word? value).map fun n => { o with rowLen := n }
  | .order => (Direction.ofText value).toOption.map fun d => { o with order := some d }

end Options

/-- What an option name asks for: a value, or help. -/
inductive Request where
  | value (name : OptionName)
  | help
deriving DecidableEq, Repr

namespace Request

/-- The request of a long name. -/
def ofLong? : String → Option Request
  | "config" => some (.value .config)
  | "k" => some (.value .k)
  | "min-lg-size" => some (.value .minLog)
  | "max-lg-size" => some (.value .maxLog)
  | "row-len" => some (.value .rowLen)
  | "order" => some (.value .order)
  | "help" => some .help
  | _ => none

/-- The request of a short name. -/
def ofShort? : Char → Option Request
  | 'c' => some (.value .config)
  | 'k' => some (.value .k)
  | 'h' => some .help
  | _ => none

end Request

/-- A command line on the way. -/
structure LineState where
  options : Options
  given : List OptionName
  /-- An option that is not yet set, with its value if that has been found. -/
  waiting : Option (OptionName × Option String)

namespace LineState

def start : LineState := ⟨.default, [], none⟩

def settle (s : LineState) (name : OptionName) : Option String → Except Refusal LineState
  | none => .error .missingValue
  | some value =>
      if name ∈ s.given then
        .error .repeated
      else
        match s.options.set? name value with
        | none => .error .badValue
        | some options => .ok { s with options := options, given := name :: s.given }

/-- Sets the option that waits, if one does. -/
def settleWaiting (s : LineState) : Except Refusal LineState :=
  match s.waiting with
  | none => .ok s
  | some (name, value) => { s with waiting := none }.settle name value

/-- Goes on with a known option and the value in the same argument, if there is one. -/
def request (s : LineState) (r : Request) (value : Option String) : Except Refusal LineState := do
  let settled ← s.settleWaiting
  match r, value with
  | .help, _ => throw .helpRequested
  | .value name, none => return { settled with waiting := some (name, none) }
  | .value name, some text => settled.settle name (some text)

/-- An argument with a long name. -/
def longArgument (s : LineState) (text : List Char) : Except Refusal LineState :=
  let name := String.ofList (text.takeWhile fun c => c != '=')
  let value := match text.dropWhile fun c => c != '=' with
    | [] => none
    | _ :: value => some (String.ofList value)
  match Request.ofLong? name with
  | none => .error .unknownArgument
  | some .help => if value.isSome then .error .unexpectedValue else s.request .help none
  | some r => s.request r value

/-- An argument with a short name, and possibly a value behind it. -/
def shortArgument (s : LineState) (name : Char) (text : List Char) : Except Refusal LineState :=
  match Request.ofShort? name with
  | none => .error .unknownArgument
  | some r =>
      match text with
      | [] => s.request r none
      | '=' :: value => s.request r (some (String.ofList value))
      | value => s.request r (some (String.ofList value))

/-- An argument that names no option: the value of the one that waits for it. -/
def plainArgument (s : LineState) (text : String) : Except Refusal LineState :=
  match s.waiting with
  | some (name, none) => .ok { s with waiting := some (name, some text) }
  | _ => .error .unknownArgument

/-- Reads the arguments one after another. Behind two dashes no argument has a meaning. -/
def read (s : LineState) : List String → Except Refusal LineState
  | [] => s.settleWaiting
  | argument :: others =>
      match argument.toList with
      | ['-', '-'] => if others.isEmpty then s.settleWaiting else .error .unknownArgument
      | '-' :: '-' :: text => do (← s.longArgument text).read others
      | '-' :: name :: text => do (← s.shortArgument name text).read others
      | _ => do (← s.plainArgument argument).read others

end LineState

/-- The options of a command line, given without the name of the program. -/
def Options.ofArguments (arguments : List String) : Except Refusal Options :=
  (LineState.start.read arguments).map LineState.options

end KWayMerge
