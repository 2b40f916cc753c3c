import Std.Data.ExtTreeSet
import CommitPipeline.Json.Value
import CommitPipeline.OperationId
import CommitPipeline.Time.Instant

/-! Operations, the units of outbound work: identity, status, dependencies, priority and hold. -/
namespace CommitPipeline

/-- A finite set of identifiers. -/
abbrev IdSet := Std.ExtTreeSet OperationId

/-- Where an operation stands. `completed` and `skipped` are final. -/
inductive Status where
  | pending
  | active
  | completed
  | skipped
  deriving DecidableEq

namespace Status

/-- A final operation holds up nobody any more, and nothing changes it. -/
def isFinal : Status → Bool
  | .completed | .skipped => true
  | .pending | .active => false

def label : Status → String
  | .pending => "pending"
  | .active => "active"
  | .completed => "completed"
  | .skipped => "skipped"

/-- The status with exactly this name. -/
def ofLabel? (s : String) : Option Status :=
  if s = "pending" then some .pending
  else if s = "active" then some .active
  else if s = "completed" then some .completed
  else if s = "skipped" then some .skipped
  else none

theorem ofLabel?_label (s : Status) : ofLabel? s.label = some s := by
  cases s <;> simp [ofLabel?, label]

end Status

/-- A dependency that comes with a commit: `operation` must not start before `dependsOn` is
final. -/
structure Edge where
  operation : OperationId
  dependsOn : OperationId
  deriving DecidableEq

/-- A unit of outbound work. The payload is for the worker alone. -/
structure Operation where
  id : OperationId
  /-- The name of the pipeline that owns the operation. -/
  pipeline : String
  /-- The commit that produced the operation. -/
  snapshot : Nat
  status : Status
  dependencies : IdSet
  priority : Int
  /-- The operation does not start before this instant. -/
  hold : Option Instant
  payload : Json

namespace Operation

/-- A pending operation without an owner, dependencies, hold or payload. -/
def new (id : OperationId) : Operation where
  id
  pipeline := ""
  snapshot := 0
  status := .pending
  dependencies := ∅
  priority := 0
  hold := none
  payload := .null

/-- Whether a hold keeps the operation from starting at an instant; at its end it no longer
does. -/
def isHeld (op : Operation) (now : Instant) : Bool :=
  match op.hold with
  | some release => now < release
  | none => false

/-- The operation with one more dependency. -/
def dependingOn (op : Operation) (id : OperationId) : Operation :=
  { op with dependencies := op.dependencies.insert id }

theorem isHeld_iff {op : Operation} {now : Instant} :
    op.isHeld now = true ↔ ∃ release, op.hold = some release ∧ now < release := by
  cases h : op.hold <;> simp [isHeld, h]

end Operation
end CommitPipeline
