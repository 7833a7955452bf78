import KWayMerge.Bench.Session

/-!
# The benchmark program

Carries out the steps of a session: writes the records that the filter of the environment
admits, and times the work.
-/

namespace KWayMerge.Program

/-- Writes a record if the filter admits it. -/
def write (filter : LogFilter) (record : LogRecord) : IO Unit := do
  if filter.admits record then
    IO.println (record.level.name ++ " " ++ record.target ++ ": " ++ record.text)

/-- Does the work and writes its events. -/
def doOnce (filter : LogFilter) (work : Unit → Worked) : IO Nat := do
  let done := work ()
  for event in done.events do
    write filter event.record
  return done.selected

/-- Does the work so many times. -/
def doTimes (filter : LogFilter) (work : Unit → Worked) (times : Nat) : IO Unit := do
  for _ in [0:times] do
    let _ ← doOnce filter work

def carryOut (filter : LogFilter) : BenchStep → IO Unit
  | .report record => write filter record
  | .measure name repeats work => do
      doTimes filter work (warmups repeats)
      let start ← IO.monoNanosNow
      doTimes filter work repeats
      let stop ← IO.monoNanosNow
      write filter (BenchStep.timedRecord name (timeText repeats (stop - start)))

/-- Carries out the steps for so many sizes from `2 ^ power` on. -/
def carryOutSizes (filter : LogFilter) (o : Options) (s : Settings) :
    (sizes power : Nat) → SampleSource → IO Unit
  | 0, _, _ => return
  | sizes + 1, power, source => do
      let (steps, rest) := nextSize SampleSource.draw o s power source
      for step in steps do
        carryOut filter step
      carryOutSizes filter o s sizes (power + 1) rest

/-- The bytes of a file, if it can be read. -/
def fileContents (path : String) : IO (Option ByteArray) := do
  try
    return some (← IO.FS.readBinFile path)
  catch _ =>
    return none

/-- The file that the command line names, if any. -/
def settingsFile (arguments : List String) : IO (Option ByteArray) := do
  match Options.ofArguments arguments with
  | .ok options =>
      match options.config with
      | some path => fileContents path
      | none => return none
  | .error _ => return none

/-- Runs a session for a command line, and writes what a filter admits. -/
def runWith (filter : LogFilter) (arguments : List String) : IO UInt32 := do
  let contents ← settingsFile arguments
  let opening := Opening.ofArguments arguments fun _ => contents
  match opening with
  | .started o s => do
      write filter (startRecord s o.k)
      carryOutSizes filter o s o.sizes o.minLog .start
  | .refused .helpRequested => IO.println Refusal.helpRequested.message
  | .refused why => IO.eprintln why.message
  | .unset fault => IO.eprintln fault.message
  return opening.exitCode.toUInt32

/-- Runs a session for a command line, with the filter of the environment. -/
def run (arguments : List String) : IO UInt32 := do
  match LogFilter.ofText (← IO.getEnv "RUST_LOG") with
  | .ok filter => runWith filter arguments
  | .error _ => do
      IO.eprintln "a log rule is torn inside a character"
      return tornFilterCode.toUInt32

end KWayMerge.Program

def main (arguments : List String) : IO UInt32 :=
  KWayMerge.Program.run arguments
