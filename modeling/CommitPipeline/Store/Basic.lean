import CommitPipeline.Error
import CommitPipeline.Names

/-! What a pipeline asks of the store that keeps its operations. -/
namespace CommitPipeline

/-- One change of the stored operations. -/
inductive Write where
  /-- Stores the operations of a commit and adds the dependencies of the edges. -/
  | save (snapshot : Nat) (operations : List Operation) (edges : List Edge)
  | status (id : OperationId) (status : Status)
  | hold (id : OperationId) (hold : Option Instant)
  | statusAndHold (id : OperationId) (status : Status) (hold : Option Instant)
  | delete (id : OperationId)

/-- A store performs a write or refuses it; what it holds afterwards is its own matter. -/
class OperationStore (σ : Type) where
  perform : σ → Write → Except Error Unit × σ

/-- The operations of one commit as a store or a plan returns them. -/
structure Batch where
  snapshot : Nat
  operations : List Operation

/-- The operations of a pipeline out of some batches, without batches that have none. -/
def Batch.owned (names : Names) (batches : List Batch) : List Batch :=
  batches.filterMap fun batch =>
    match batch.operations.filter fun op => names.owns op.pipeline with
    | [] => none
    | operations => some ⟨batch.snapshot, operations⟩

end CommitPipeline
