import CommitPipeline.Engine
import CommitPipeline.Publisher
import CommitPipeline.Worker.Basic

/-! The state of a running pipeline: the engine, the tasks beside it, and what is on its way from
one to the other. -/
namespace CommitPipeline

/-- What somebody who changed the pipeline still owes the others: the started operations go to the
dispatcher first, then the timer is woken, then the events are published. -/
structure Delivery where
  operations : List Operation
  wake : Bool
  events : List Event

namespace Delivery

def none : Delivery := ⟨[], false, []⟩

/-- Whatever changes may move the earliest hold, so a step with events wakes the timer. -/
def ofStep (step : Step) : Delivery :=
  ⟨step.dispatched, !step.events.isEmpty, step.events.toList⟩

def isDone (d : Delivery) : Bool :=
  d.operations.isEmpty && !d.wake && d.events.isEmpty

/-- The number of bits that are left. -/
def size (d : Delivery) : Nat :=
  d.operations.length + d.wake.toNat + d.events.length

end Delivery

/-- The task that hands started operations to the worker, one at a time. -/
inductive Dispatcher where
  | idle
  /-- The worker makes its calls; a call is delivered before the next one. -/
  | serving (breakdown : Breakdown) (calls : List Request) (delivery : Delivery)
  /-- Ended by a breakdown. -/
  | ended

/-- The task that starts what becomes ready when a hold ends. -/
inductive Timer where
  /-- About to look for the next hold. -/
  | reading
  /-- Asleep until the deadline, or for as long as nobody wakes it. -/
  | parked (deadline : Option Instant)
  /-- A deadline has passed and operations were started. -/
  | delivering (delivery : Delivery)

/-- A report that a worker makes later. -/
structure Report where
  due : Instant
  request : Request

/-- Puts a report behind those that are due no later. -/
def Report.insert (report : Report) : List Report → List Report
  | [] => [report]
  | other :: rest =>
    if report.due < other.due then report :: other :: rest else other :: report.insert rest

structure Pipeline (σ ω : Type) where
  engine : Engine σ
  worker : ω
  /-- Operations on their way to the dispatcher, oldest first. -/
  outbox : List Operation
  dispatcher : Dispatcher
  /-- The wake-ups that the timer has not taken up. -/
  wakes : Nat
  timer : Timer
  publisher : Publisher
  /-- What callers are about to deliver. -/
  deliveries : List Delivery
  /-- The reports to come, by the time when they are due. -/
  reports : List Report

namespace Pipeline
variable {σ ω : Type}

/-- Nothing is queued and nothing runs. -/
def isDrained (p : Pipeline σ ω) : Bool :=
  p.engine.core.queue.graphs.isEmpty && !p.engine.core.isActive

/-- When a settled pipeline will next have something to do. -/
def nextDue? (p : Pipeline σ ω) : Option Instant :=
  let hold := match p.timer with
    | .parked (some deadline) => [deadline]
    | _ => []
  Instant.earliest? (hold ++ p.reports.map (·.due))

/-- A short diagnostic text. -/
def describe (p : Pipeline σ ω) : String :=
  "Pipeline \x7b core: " ++ p.engine.core.describe ++ ", .. \x7d"

end Pipeline
end CommitPipeline
