import KWayMerge.Bench.Options
import KWayMerge.Bench.Quantity
import KWayMerge.Bench.Reference
import KWayMerge.Bench.Sample
import KWayMerge.Log.Filter
import KWayMerge.Settings.Reading
import KWayMerge.Toml.Writing

/-!
# A benchmark session

A session reports its settings, and then, for each power of two in its range, draws that many
values, compares the block selection with a full sort, and times each way to the first values. A
step of a session is a record to write, or work to time; only what runs the session knows the
times.
-/

namespace KWayMerge

/-- What timed work did: how many elements it selected, and what it reported. -/
structure Worked where
  selected : Nat
  events : List Event

/-- A step of a session. -/
inductive BenchStep where
  | report (record : LogRecord)
  | measure (name : String) (repeats : Nat) (work : Unit → Worked)

/-- How often work is done before its time counts. -/
def warmups (repeats : Nat) : Nat := repeats

/-- How often timed work is done in all. -/
def benchmarkCalls (repeats : Nat) : Nat :=
  warmups repeats + repeats

/-- A record of the program itself. -/
def programRecord (level : LogLevel) (message : String) (fields : List (String × LogValue)) :
    LogRecord :=
  ⟨level, Event.program, message, fields⟩

namespace BenchStep

/-- The record of work that has been timed. -/
def timedRecord (name elapsed : String) : LogRecord :=
  programRecord .info ("  " ++ name ++ ": " ++ elapsed) []

/-- The records of a step, with the given text for the time of timed work. -/
def records (elapsed : String) : BenchStep → List LogRecord
  | .report record => [record]
  | .measure name repeats work =>
      (List.replicate (benchmarkCalls repeats) ((work ()).events.map Event.record)).flatten ++
        [timedRecord name elapsed]

end BenchStep

/-- The first record of a session. -/
def startRecord (s : Settings) (k : Nat) : LogRecord :=
  programRecord .info "starting" [("config", .text s.summary), ("k", .count k)]

/-- The complaint about a block selection that went wrong. -/
def disagreementRecord (power : Nat) : LogRecord :=
  programRecord .error "block top-k disagrees with full sort" [("lg_size", .count power)]

/-- The settings of a session, with the direction of the command line over them. -/
def Options.overriding (o : Options) (s : Settings) : Settings :=
  match o.order with
  | none => s
  | some direction => { s with direction := direction }

/-- The repetitions over `2 ^ power` values: a million values in all, or one repetition. -/
def repeatsAt (power : Nat) : Nat :=
  1 <<< (20 - power)

/-- Work that selects a list and reports nothing. -/
def silently (selected : List Single) : Worked :=
  ⟨selected.length, []⟩

/-- The number of elements of a ranking, and its events. -/
def Report.worked {β : Type} (count : β → Nat) (r : Report β) : Worked :=
  match r.result with
  | .ok value => ⟨count value, r.events⟩
  | .error _ => ⟨0, r.events⟩

/-- The benchmarks over a list of values. -/
def benchmarks (s : Settings) (rowLen : Nat) (values : List Single) (k repeats : Nat) :
    List BenchStep :=
  [ .measure "sort_unstable" repeats fun () => silently (firstByFullSort values k s.direction),
    .measure "voracious_sort" repeats fun () => silently (firstByValueSort values k s.direction),
    .measure "block top-k" repeats fun () =>
      let done := blockSelection s values k
      ⟨(selectedBy done).length, done.events⟩,
    .measure "indexed top-k" repeats fun () =>
      (s.rank values k).worked fun w => w.values.length ] ++
    if 0 < rowLen ∧ values.length % rowLen = 0 then
      [.measure "row top-k (rayon)" repeats fun () =>
        (s.rankRows values rowLen (min k rowLen)).worked List.length]
    else
      []

/-- The steps over a list of `2 ^ power` values. -/
def sizeSteps (o : Options) (s : Settings) (power : Nat) (values : List Single) :
    List BenchStep :=
  let k := min o.k values.length
  let size := programRecord .info ("size: " ++ sizeText (4 * values.length)) []
  let selection := blockSelection s values k
  let checked :=
    if (selectedBy selection).isEqv (firstByFullSort values k s.direction) FloatBits.equals then
      []
    else
      [.report (disagreementRecord power)]
  .report size :: selection.events.map (fun e => .report e.record) ++ checked ++
    benchmarks s o.rowLen values k (repeatsAt power)

section Sampling

variable {σ : Type} (draw : Sampler σ)

/-- The steps over the next `2 ^ power` samples, and the source after them. -/
def nextSize (o : Options) (s : Settings) (power : Nat) (source : σ) : List BenchStep × σ :=
  let (values, rest) := draw source (1 <<< power)
  (sizeSteps o s power values, rest)

/-- The number of sizes in a session. -/
def Options.sizes (o : Options) : Nat :=
  o.maxLog + 1 - o.minLog

/-- The steps for so many sizes from `2 ^ power` on. -/
def sizesFrom (o : Options) (s : Settings) : (sizes power : Nat) → σ → List BenchStep
  | 0, _, _ => []
  | sizes + 1, power, source =>
      let (steps, rest) := nextSize draw o s power source
      steps ++ sizesFrom o s sizes (power + 1) rest

/-- A session that draws its values from this source. -/
def session (source : σ) (o : Options) (s : Settings) : List BenchStep :=
  .report (startRecord s o.k) :: sizesFrom draw o s o.sizes o.minLog source

end Sampling

/-! ## Beginning and end of the program -/

/-- How a run of the program begins. -/
inductive Opening where
  | refused (why : Refusal)
  | unset (fault : SettingsFault)
  | started (options : Options) (settings : Settings)

/-- Reads the command line, and the settings file if it names one. -/
def Opening.ofArguments (arguments : List String) (fileAt : String → Option ByteArray) :
    Opening :=
  match Options.ofArguments arguments with
  | .error why => .refused why
  | .ok options =>
      match options.config with
      | none => .started options (options.overriding .default)
      | some path =>
          match Settings.ofFile Toml.format (fileAt path) with
          | .error fault => .unset fault
          | .ok settings => .started options (options.overriding settings)

/-- The exit code of a run: two for a wrong command line, one for a wrong settings file. -/
def Opening.exitCode : Opening → Nat
  | .refused .helpRequested => 0
  | .refused _ => 2
  | .unset _ => 1
  | .started .. => 0

def Opening.steps : Opening → List BenchStep
  | .started options settings => session SampleSource.draw .start options settings
  | _ => []

/-- The records of a run that a filter admits, with the given text for all times. -/
def Opening.records (o : Opening) (filter : LogFilter) (elapsed : String) : List LogRecord :=
  (o.steps.map (BenchStep.records elapsed)).flatten.filter filter.admits

/-- How a run ends and what it writes. -/
structure RunOutcome where
  exitCode : Nat
  records : List LogRecord

/-- The exit code of a run whose filter is torn. -/
def tornFilterCode : Nat := 101

/--
What a run comes to, with the given text for all times. The filter is made before the command
line is read.
-/
def RunOutcome.ofArguments (filterText : Option String) (arguments : List String)
    (fileAt : String → Option ByteArray) (elapsed : String) : RunOutcome :=
  match LogFilter.ofText filterText with
  | .error _ => ⟨tornFilterCode, []⟩
  | .ok filter =>
      let opening := Opening.ofArguments arguments fileAt
      ⟨opening.exitCode, opening.records filter elapsed⟩

end KWayMerge
