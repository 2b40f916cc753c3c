import Std.Data.ExtTreeMap
import CommitPipeline.Plan.Basic
import CommitPipeline.Worker.Basic

/-! A worker that performs an operation by waiting. The first attempts at each operation fail. -/
namespace CommitPipeline

structure SimulatedWorker where
  settings : WorkerSettings
  /-- How often each operation was handed over. -/
  attempts : Std.ExtTreeMap OperationId Nat

namespace SimulatedWorker

def new (settings : WorkerSettings) : SimulatedWorker := ⟨settings, ∅⟩

def attemptsAt (w : SimulatedWorker) (id : OperationId) : Nat := w.attempts.getD id 0

/-- How long an attempt takes: a millisecond at least. -/
def duration (w : SimulatedWorker) : Delay := .ofMillis (max 1 w.settings.durationMs)

/-- The report at the end of an attempt. A failed attempt gives the operation back to be tried
again after the delay of the settings. -/
def outcome (w : SimulatedWorker) (id : OperationId) (attempt : Nat) : Request :=
  if attempt ≤ w.settings.failFirst then .reset id (some (.ofMillis w.settings.retryDelayMs))
  else .complete id

def start (w : SimulatedWorker) (_ : Core) (op : Operation) : Reaction × SimulatedWorker :=
  let attempt := w.attemptsAt op.id + 1
  (.later w.duration (w.outcome op.id attempt),
   { w with attempts := w.attempts.insert op.id attempt })

instance : Worker SimulatedWorker := ⟨start⟩

end SimulatedWorker
end CommitPipeline
