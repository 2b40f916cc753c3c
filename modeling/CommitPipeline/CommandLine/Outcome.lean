import CommitPipeline.CommandLine.Directory
import CommitPipeline.CommandLine.Run
import CommitPipeline.Plan.Listing

/-! How a start of the program ends, and what it leaves behind. -/
namespace CommitPipeline

inductive Outcome where
  /-- The arguments do not lead to a run. -/
  | stopped (stop : ArgumentStop)
  | notLoaded (path : String) (fault : LoadFault)
  /-- The plan was only shown. -/
  | listed (plan : Plan)
  /-- The pipeline did not take the plan. -/
  | rejected (error : Error)
  | drained (plan : Plan) (log : List LogEntry)
  /-- The run was broken off before all was done. -/
  | interrupted (log : List LogEntry)

namespace Outcome

def exitCode : Outcome → Nat
  | .stopped .help | .stopped .version => 0
  | .stopped _ => 2
  | .notLoaded .. | .rejected _ => 1
  | .listed _ | .drained .. | .interrupted _ => 0

/-- The lines on standard output. -/
def output (elapsed : String) : Outcome → List String
  | .stopped .help => Arguments.helpLines
  | .stopped .version => [Arguments.versionLine]
  | .listed plan => plan.listing
  | .drained plan _ => [plan.drainedLine elapsed]
  | _ => []

/-- The lines on standard error that tell of an error. -/
def errors : Outcome → List String
  | .stopped stop => if exitCode (.stopped stop) = 0 then [] else ["error: " ++ stop.message]
  | .notLoaded path fault => errorLines (LoadFault.context path) fault.causes
  | .rejected error => errorLines error.message []
  | _ => []

/-- All that can be logged, whatever is wanted of it. -/
def log : Outcome → List LogEntry
  | .listed _ => [Plan.listingEntry]
  | .drained _ log | .interrupted log => log
  | _ => []

end Outcome

/-- The entries of a log that are shown under some arguments and a setting of the environment. -/
def shownEntries (args : List String) (setting : Option String) (log : List LogEntry) :
    List LogEntry :=
  match Arguments.parse args with
  | .ok arguments => log.filter fun entry => (arguments.wantedLevel setting).shows entry.level
  | .error _ => []

/-- What the program does with its arguments in a directory, in simulated time. A run that is not
done when the time is up is interrupted. -/
def execute (args : List String) (directory : Directory) (fresh : Nat → OperationId)
    (now limit : Instant) : Outcome :=
  match Arguments.parse args with
  | .error stop => .stopped stop
  | .ok arguments =>
    match Plan.load (directory.read arguments.path) with
    | .error fault => .notLoaded arguments.path fault
    | .ok plan =>
      if arguments.dryRun then .listed plan
      else match PlanRun.start arguments plan fresh now with
        | .error error => .rejected error
        | .ok run =>
          let (watcher, run) := run.drive now limit
          if watcher.isDone then .drained plan watcher.log
          else .interrupted (watcher.log ++ [RunWatcher.interruption run])

end CommitPipeline
