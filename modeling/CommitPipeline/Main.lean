import CommitPipeline.CommandLine.Outcome
import CommitPipeline.Time.Elapsed

/-! The program: it shows or replays the plan that its arguments name. -/
namespace CommitPipeline

/-- The fault that an error of the system stands for. -/
def FileFault.ofError : IO.Error → FileFault
  | .noFileOrDirectory .. => .missing
  | .inappropriateType .. => .isDirectory
  | error => .other (toString error)

/-- The contents of a file. -/
def readContents (path : String) : IO (Except FileFault ByteArray) := do
  try
    return .ok (← IO.FS.readBinFile path)
  catch error => return .error (.ofError error)

/-- A random identifier. -/
def randomId : IO OperationId := do
  let bytes ← IO.getRandomBytes 16
  return .ofRandom (bytes.foldl (fun n b => n * 256 + b.toNat) 0)

/-- The instant some nanoseconds after the start of the program. -/
def instantAt (nanos : Nat) : Instant :=
  (Instant.ofParts? (nanos / Instant.second) (nanos % Instant.second)).getD .last

/-- How many milliseconds there are from one instant to another, rounded up. -/
def millisBetween (start finish : Instant) : Nat :=
  let nanos := (finish.secs - start.secs) * Instant.second + finish.nanos - start.nanos
  (nanos.toNat + 999999) / 1000000

/-- The longest sleep in one piece, in milliseconds. -/
def longestSleep : Nat := 1000

/-- Writes the entries that are shown to standard error. -/
def writeLog (shown : List LogEntry → List LogEntry) (log : List LogEntry) : IO Unit := do
  for entry in shown log do
    IO.eprintln (entry.level.title ++ " " ++ entry.text)

/-- Replays a plan in real time and writes the log as it goes. -/
partial def replay (clock : IO Nat) (shown : List LogEntry → List LogEntry) (run : PlanRun)
    (watcher : RunWatcher) : IO Unit := do
  let now := instantAt (← clock)
  let (watcher, run) := run.observe RunWatcher.look RunWatcher.isDone now watcher
  writeLog shown watcher.log
  if watcher.isDone then return
  let pause := match run.nextDue? with
    | some due => min longestSleep (millisBetween now due)
    | none => longestSleep
  IO.sleep pause.toUInt32
  replay clock shown run { watcher with log := [] }

/-- Replays a plan to its end, unless the pipeline does not take it. -/
def replayPlan (arguments : Arguments) (shown : List LogEntry → List LogEntry) (plan : Plan) :
    IO Outcome := do
  let ids ← (List.range plan.operationCount).mapM fun _ => randomId
  let start ← IO.monoNanosNow
  let clock : IO Nat := return (← IO.monoNanosNow) - start
  match PlanRun.start arguments plan (fun place => ids.getD place (.ofNat 0)) (instantAt 0) with
  | .error error => return .rejected error
  | .ok run =>
    replay clock shown run (.new run)
    return .drained plan []

/-- What the program does with its arguments. -/
def runProgram (args : List String) (shown : List LogEntry → List LogEntry) : IO Outcome := do
  match Arguments.parse args with
  | .error stop => return .stopped stop
  | .ok arguments =>
    match Plan.load (← readContents arguments.path) with
    | .error fault => return .notLoaded arguments.path fault
    | .ok plan =>
      if arguments.dryRun then return .listed plan else replayPlan arguments shown plan

end CommitPipeline

open CommitPipeline in
/-- Runs the program, prints what it has to say and returns its exit code. -/
def main (args : List String) : IO UInt32 := do
  let start ← IO.monoNanosNow
  let shown := shownEntries args (← IO.getEnv "SYNCPIPE_LOG")
  let outcome ← runProgram args shown
  let elapsed := elapsedText ((← IO.monoNanosNow) - start)
  for line in outcome.output elapsed do
    IO.println line
  writeLog shown outcome.log
  for line in outcome.errors do
    IO.eprintln line
  return outcome.exitCode.toUInt32
