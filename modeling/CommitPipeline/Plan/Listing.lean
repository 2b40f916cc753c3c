import CommitPipeline.LogLevel
import CommitPipeline.Plan.Basic
import CommitPipeline.Text.Quoted

/-! A plan as text, for a look at it before it runs. -/
namespace CommitPipeline.Plan

def operationLines (op : PlannedOperation) : List String :=
  ("      " ++ op.name ++ " (priority " ++ toString op.priority ++ ")")
    :: if op.after.isEmpty then [] else ["        after: " ++ Text.quotedList op.after]

def graphLines (g : PlannedGraph) : List String :=
  ("  - snapshot " ++ toString g.snapshot) :: g.operations.flatMap operationLines

/-- The lines of the listing: the settings of the pipeline, then graph by graph. -/
def listing (p : Plan) : List String :=
  ["syncpipe dry-run",
    "  pipeline.name = " ++ p.name,
    "  pipeline.algorithm = " ++ p.algorithm.label,
    "  pipeline.max_concurrent_operation_count = " ++ toString p.limit]
  ++ (if p.previousNames.isEmpty then []
      else ["  pipeline.previous_names = " ++ Text.quotedList p.previousNames])
  ++ ["", "graphs (" ++ toString p.graphs.length ++ "):"]
  ++ p.graphs.flatMap graphLines

/-- What the log says of a listing. -/
def listingEntry : LogEntry := ⟨.debug, "dry-run complete (no execution)"⟩

end CommitPipeline.Plan
