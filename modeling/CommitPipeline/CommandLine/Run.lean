import CommitPipeline.CommandLine.Arguments
import CommitPipeline.Pipeline.Launch
import CommitPipeline.Plan.Source
import CommitPipeline.Store.Memory
import CommitPipeline.Worker.Simulated

/-! Replaying a plan with the simulated worker. -/
namespace CommitPipeline

abbrev PlanRun := Pipeline Memory SimulatedWorker

/-- The settings for a plan; the arguments win over the plan. -/
def Arguments.settings (a : Arguments) (plan : Plan) : LaunchSettings where
  names := .new plan.name plan.previousNames
  algorithm := a.algorithm.getD plan.algorithm
  limit := a.limit.getD plan.limit
  suspendCount := a.startSuspended.toNat
  eventCapacity := defaultEventCapacity

/-- Queues a whole plan on an empty store. Who starts suspended is resumed when all is queued. -/
def PlanRun.start (a : Arguments) (plan : Plan) (fresh : Nat → OperationId) (now : Instant) :
    Except Error PlanRun :=
  let settings := a.settings plan
  let run : PlanRun := Pipeline.launch settings .empty (.new plan.worker) now
  match run.restore now ((PlanSource.ofPlan fresh plan).restore settings.names) with
  | (.error error, _) => .error error
  | (.ok (), run) => .ok (if a.startSuspended then (run.request now .resume).2 else run)

/-- The line that a run ends with. -/
def Plan.drainedLine (plan : Plan) (elapsed : String) : String :=
  "pipeline '" ++ plan.name ++ "' drained " ++ toString plan.operationCount
    ++ " operation(s) from " ++ toString plan.graphs.length ++ " graph(s) in " ++ elapsed

/-- Watches a run: waits for its end and writes the log. -/
structure RunWatcher where
  waiter : Waiter
  subscriber : Subscriber
  /-- The entries that nobody has taken yet, in order. -/
  log : List LogEntry

namespace RunWatcher

/-- What the log says of a run that has begun. -/
def opening (run : PlanRun) : List LogEntry := [
  ⟨.info, "pipeline started"⟩,
  ⟨.debug, "plan queued, graphs: " ++ toString run.engine.core.queue.graphs.length⟩]

def new (run : PlanRun) : RunWatcher :=
  ⟨.new run, run.publisher.subscribe, opening run⟩

/-- What the log says of a notice. -/
def noticeEntries (run : PlanRun) : Notice → List LogEntry
  | .missed count => [⟨.debug, "event logger lagged, missed: " ++ toString count⟩]
  | .event event =>
    ⟨.trace, "publishing pipeline event"⟩ :: match event with
      | .queueChanged =>
        [⟨.debug, "queue changed, graphs: " ++ toString run.engine.core.queue.graphs.length⟩]
      | .suspendCountChanged =>
        [⟨.info, "suspend count changed: " ++ toString run.engine.core.suspendCount⟩]
      | .activeStatusChanged =>
        [⟨.info, "active status changed: " ++ toString run.engine.core.isActive⟩]

/-- What the log says of a report that is about to be made. -/
def reportEntry (report : Report) : LogEntry :=
  match report.request with
  | .reset id _ => ⟨.warn, "simulated attempt failed; retrying later: " ++ toString id⟩
  | .complete id => ⟨.info, "simulated operation completed: " ++ toString id⟩
  | _ => ⟨.info, "simulated report"⟩

/-- What the log says of a run that was broken off. -/
def interruption (run : PlanRun) : LogEntry :=
  ⟨.warn, "interrupted before the pipeline drained, graphs: "
    ++ toString run.engine.core.queue.graphs.length⟩

/-- Looks at the run, before and after what happens at an instant. -/
def look (now : Instant) (run : PlanRun) (w : RunWatcher) : RunWatcher :=
  let (notices, subscriber) := run.publisher.tellAll w.subscriber
  let due := run.reports.filter fun report => !(now < report.due : Bool)
  { waiter := w.waiter.follow run
    subscriber
    log := w.log ++ notices.flatMap (noticeEntries run) ++ due.map reportEntry }

/-- Whether the run is over. -/
def isDone (w : RunWatcher) : Bool := w.waiter = .done

end RunWatcher

/-- Runs in simulated time until all is drained or the time is up. -/
def PlanRun.drive (run : PlanRun) (now limit : Instant) : RunWatcher × PlanRun :=
  (run.watch RunWatcher.look RunWatcher.isDone limit patience now (.new run)).2

end CommitPipeline
