import CommitPipeline.Plan.Basic
import CommitPipeline.Store.Basic

/-! The commits of a plan as batches that a pipeline can restore. -/
namespace CommitPipeline

/-- The batches of a plan, and the identifiers of its operations in plan order. -/
structure PlanSource where
  batches : List Batch
  ids : List (String × OperationId)

namespace PlanSource

/-- The identifier of the operation with a name. -/
def idOf? (s : PlanSource) (name : String) : Option OperationId := s.ids.lookup name

/-- The name of the operation with an identifier. -/
def nameOf? (s : PlanSource) (id : OperationId) : Option String :=
  (s.ids.find? (·.2 = id)).map (·.1)

/-- What the worker is handed for an operation: its name and its payload. -/
def workerPayload (op : PlannedOperation) : Json :=
  .object [("data", op.payload), ("name", .text op.name)]

/-- The operation of a planned one, with names resolved to identifiers. -/
def operation (owner : String) (ids : List (String × OperationId)) (op : PlannedOperation)
    (id : OperationId) : Operation :=
  { Operation.new id with
    pipeline := owner
    priority := op.priority
    dependencies := Std.ExtTreeSet.ofList (op.after.filterMap (ids.lookup ·))
    payload := workerPayload op }

/-- The source of a plan, whose operations take the fresh identifiers in plan order. -/
def ofPlan (fresh : Nat → OperationId) (p : Plan) : PlanSource :=
  let ids := p.operationNames.zipIdx.map fun (name, place) => (name, fresh place)
  { ids
    batches := p.graphs.map fun g =>
      ⟨g.snapshot, g.operations.filterMap fun op =>
        (ids.lookup op.name).map (operation p.name ids op)⟩ }

/-- What the plan holds for a pipeline. -/
def restore (s : PlanSource) (names : Names) : List Batch :=
  Batch.owned names s.batches

end PlanSource
end CommitPipeline
