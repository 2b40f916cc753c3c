import CommitPipeline.Event
import CommitPipeline.Limit
import CommitPipeline.Names
import CommitPipeline.Readiness
import CommitPipeline.Store.Basic
import CommitPipeline.Text.Quoted

/-! The state of a pipeline in memory, and the questions that can be asked of it. -/
namespace CommitPipeline

structure Core where
  names : Names
  algorithm : Algorithm
  /-- How many dispatched operations may run at once. -/
  limit : Nat
  suspendCount : Nat
  queue : Queue
  table : Table
  /-- The operations handed out by the dispatcher and not reported yet. -/
  active : IdSet
  /-- The live operations that were activated from outside, which is possible once. -/
  recovered : IdSet
  /-- Final operations whose graphs are gone, in this run or an earlier one. -/
  retired : IdSet
  /-- Whether the pipeline was active when its subscribers were last told. -/
  wasActive : Bool

namespace Core

/-- A pipeline without work. -/
def new (names : Names) (algorithm : Algorithm) : Core where
  names
  algorithm
  limit := defaultLimit
  suspendCount := 0
  queue := .empty
  table := ∅
  active := ∅
  recovered := ∅
  retired := ∅
  wasActive := false

def readiness (c : Core) : Readiness :=
  ⟨c.queue, c.table, c.retired, c.algorithm⟩

/-- The operations that may start, in dispatch order, whether or not the pipeline is suspended or
has free slots. -/
def ready (c : Core) (now : Instant) : List OperationId :=
  c.readiness.ready now

/-- The earliest hold after `now` that keeps a considered operation waiting. -/
def nextHold (c : Core) (now : Instant) : Option Instant :=
  c.readiness.nextHold now

def isSuspended (c : Core) : Bool := 0 < c.suspendCount

/-- The live operation with an identifier. -/
def find (c : Core) (id : OperationId) : Except Error Operation :=
  match c.table[id]? with
  | some op => .ok op
  | none => .error (.unknownOperation id)

def statusOf (c : Core) (id : OperationId) : Except Error Status :=
  (c.find id).map (·.status)

def holdOf (c : Core) (id : OperationId) : Except Error (Option Instant) :=
  (c.find id).map (·.hold)

/-- The live operations in queue order. -/
def listed (c : Core) : List Listed :=
  Listed.ofGraphs c.table 0 c.queue.graphs

/-- The active operations in queue order, dispatched or activated from outside. -/
def activeOperations (c : Core) : List Operation :=
  (c.listed.map (·.operation)).filter (·.status = .active)

/-- Whether an operation is known to be completed or skipped, be its graph gone or not. -/
def isFinalized (c : Core) (id : OperationId) : Bool :=
  c.retired.contains id || match c.table[id]? with
    | some op => op.status.isFinal
    | none => false

def pendingCount (c : Core) : Nat :=
  c.table.values.countP (·.status = .pending)

/-- Whether some operation runs. -/
def hasActive (c : Core) : Bool :=
  !c.active.isEmpty || c.table.values.any (·.status = .active)

/-- Something runs, or something is pending and the pipeline is not suspended. -/
def isActive (c : Core) : Bool :=
  c.hasActive || (c.suspendCount = 0 && 0 < c.pendingCount)

/-- A pending operation that its dependencies hold up. -/
structure StalledOperation where
  id : OperationId
  snapshot : Nat
  graphIndex : Nat
  unmet : List OperationId
  deriving DecidableEq

/-- A pipeline that nothing but a call from outside can move on. -/
structure Stall where
  pending : Nat
  blocked : List StalledOperation
  deriving DecidableEq

/-- The stall of a pipeline, if it is in one: work is pending and the pipeline is not suspended,
yet nothing runs, nothing is ready and no hold is going to end. -/
def stall? (c : Core) (now : Instant) : Option Stall :=
  if c.pendingCount = 0 || c.isSuspended || c.hasActive then none
  else if !(c.ready now).isEmpty || (c.nextHold now).isSome then none
  else some {
    pending := c.pendingCount
    blocked := (c.readiness.blocked now).map fun b =>
      ⟨b.operation.id, b.operation.snapshot, b.graphIndex, b.unmet⟩ }

/-- A short diagnostic text. -/
def describe (c : Core) : String :=
  "PipelineCore \x7b name: " ++ Text.quoted c.names.current
    ++ ", algorithm: " ++ c.algorithm.title
    ++ ", max_concurrent: " ++ toString c.limit
    ++ ", suspend_count: " ++ toString c.suspendCount
    ++ ", graphs: " ++ toString c.queue.graphs.length
    ++ ", operations: " ++ toString c.table.size
    ++ ", active: " ++ toString c.active.size
    ++ ", retired: " ++ toString c.retired.size
    ++ ", .. \x7d"

end Core
end CommitPipeline
