import CommitPipeline.Pipeline.Launch
import CommitPipeline.Store.Memory
import CommitPipeline.Worker.Recorder
import CommitPipeline.Worker.Simulated

/-! Replaying commits with the simulated worker, one operation at a time. -/
namespace CommitPipeline

structure Simulation where
  algorithm : Algorithm
  worker : WorkerSettings
  /-- The commits, all queued before the first operation starts. -/
  commits : List Batch
  /-- The operations skipped during the first attempt, in order. -/
  skips : List OperationId

namespace Simulation

abbrev Run := Pipeline Memory (Recorder SimulatedWorker)

/-- How a simulation went. -/
structure Outcome where
  drained : Bool
  /-- The operations in the order in which they were handed over, once for each attempt. -/
  started : List OperationId
  worker : SimulatedWorker
  /-- What became of the skips. -/
  skipped : List (Except Error Unit)
  /-- How many graphs were left when the last attempt had ended. -/
  graphCount : Nat

/-- A suspended pipeline with one slot. -/
def launch (s : Simulation) (now : Instant) : Run :=
  Pipeline.launch ⟨.new "uploads" [], s.algorithm, 1, 1, defaultEventCapacity⟩ .empty
    (.new (.new s.worker)) now

/-- Queues commits up to the first that is rejected. -/
def queueAll (now : Instant) (run : Run) : List Batch → Except Error Run
  | [] => .ok run
  | commit :: rest =>
    match run.request now (.append commit.snapshot commit.operations []) with
    | (.ok (), run) => queueAll now run rest
    | (.error error, _) => .error error

/-- Runs a simulation for so many milliseconds at most. -/
def run (s : Simulation) (now : Instant) (millis : Nat) : Except Error Outcome := do
  let queued ← queueAll now (s.launch now) s.commits
  let resumed := ((queued.request now .resume).2).settle now
  let (skipped, skipping) := resumed.requestEach now (s.skips.map .skip)
  let limit := now.after (.ofMillis millis)
  let (later, drained, run) := skipping.drain now limit
  let (_, _, ended) := run.runUntil later limit fun run => run.reports.isEmpty
  return {
    drained
    started := run.worker.started
    worker := run.worker.worker
    skipped
    graphCount := ended.engine.core.queue.graphs.length }

end Simulation
end CommitPipeline
