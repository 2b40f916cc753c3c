import CommitPipeline.Pipeline.Schedule

/-! Starting a pipeline and queueing again what it had left. -/
namespace CommitPipeline

/-- What is fixed or set when a pipeline is started. -/
structure LaunchSettings where
  names : Names
  algorithm : Algorithm
  limit : Nat
  /-- The suspend count at the start. -/
  suspendCount : Nat
  /-- How many events a subscriber may fall behind. -/
  eventCapacity : Nat

/-- How many events a subscriber may fall behind unless a pipeline is told otherwise. -/
def defaultEventCapacity : Nat := 64

namespace Pipeline
variable {σ ω : Type} [OperationStore σ]

/-- A pipeline without work whose tasks are about to begin. -/
def launch (settings : LaunchSettings) (store : σ) (worker : ω) (now : Instant) :
    Pipeline σ ω where
  engine :=
    let engine : Engine σ := ⟨.new settings.names settings.algorithm, store⟩
    let engine := (engine.apply now (.setLimit settings.limit)).2
    (engine.apply now (.suspend settings.suspendCount)).2
  worker
  outbox := []
  dispatcher := .idle
  wakes := 0
  timer := .reading
  publisher := .ofCapacity settings.eventCapacity
  deliveries := []
  reports := []

variable [Worker ω]

/-- Queues batches one after the other, up to the first that is rejected. -/
def restoreEach (p : Pipeline σ ω) (now : Instant) :
    List Batch → Except Error Unit × Pipeline σ ω
  | [] => (.ok (), p)
  | batch :: rest =>
    match p.request now (.restore batch) with
    | (.error error, p) => (.error error, p)
    | (.ok (), p) => p.restoreEach now rest

/-- Queues again what was left of an earlier run. -/
def restore (p : Pipeline σ ω) (now : Instant) (batches : List Batch) :
    Except Error Unit × Pipeline σ ω :=
  { p with engine := p.engine.retireMissing batches }.restoreEach now batches

end Pipeline
end CommitPipeline
