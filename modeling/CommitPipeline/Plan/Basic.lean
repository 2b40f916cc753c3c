import CommitPipeline.Algorithm
import CommitPipeline.Json.Value

/-! Plans: the commits to be replayed and the settings of the pipeline and its worker. -/
namespace CommitPipeline

/-- How the simulated worker behaves. -/
structure WorkerSettings where
  /-- How long an attempt takes. -/
  durationMs : Nat
  /-- How many attempts of each operation fail before one succeeds. -/
  failFirst : Nat
  /-- How long an operation is held after a failed attempt. -/
  retryDelayMs : Nat
  deriving DecidableEq

def WorkerSettings.default : WorkerSettings := ⟨50, 0, 200⟩

/-- An operation of a plan. Other operations refer to it by its name. -/
structure PlannedOperation where
  name : String
  priority : Int
  /-- The operations that have to be finished first. -/
  after : List String
  payload : Json

/-- A commit of a plan. -/
structure PlannedGraph where
  snapshot : Nat
  operations : List PlannedOperation

structure Plan where
  name : String
  algorithm : Algorithm
  limit : Nat
  previousNames : List String
  worker : WorkerSettings
  graphs : List PlannedGraph

namespace Plan

/-- All operations in plan order. -/
def operations (p : Plan) : List PlannedOperation :=
  p.graphs.flatMap (·.operations)

def operationNames (p : Plan) : List String :=
  p.operations.map (·.name)

def operationCount (p : Plan) : Nat := p.operations.length

/-- The snapshot of the graph that holds the operation with a name. -/
def snapshotOf? (p : Plan) (name : String) : Option Nat :=
  (p.graphs.find? fun g => g.operations.any (·.name = name)).map (·.snapshot)

/-- The dependencies that a plan gives for a name. -/
def dependencies (p : Plan) (name : String) : List String :=
  match p.operations.find? (·.name = name) with
  | some op => op.after
  | none => []

/-- The operations that name another one as their dependency, in plan order. -/
def dependents (p : Plan) (name : String) : List String :=
  (p.operations.filter fun op => op.after.contains name).map (·.name)

end Plan
end CommitPipeline
