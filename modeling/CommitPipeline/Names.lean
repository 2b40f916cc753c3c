import Std.Data.ExtTreeSet

/-! The name of a pipeline and the names it had before. -/
namespace CommitPipeline

/-- Operations stored under a former name still belong to the pipeline. -/
structure Names where
  current : String
  previous : Std.ExtTreeSet String
  current_not_previous : current ∉ previous

namespace Names

/-- The names of a pipeline. The current one is no former one. -/
def new (current : String) (previous : List String) : Names where
  current
  previous := Std.ExtTreeSet.ofList (previous.filter (· ≠ current))
  current_not_previous := by simp [Std.ExtTreeSet.mem_ofList]

/-- Whether an operation that is tagged with a name belongs to the pipeline. -/
def owns (names : Names) (tag : String) : Bool :=
  names.current = tag || names.previous.contains tag

theorem owns_iff {names : Names} {tag : String} :
    names.owns tag = true ↔ tag = names.current ∨ tag ∈ names.previous := by
  rw [owns, Bool.or_eq_true, decide_eq_true_eq, eq_comm, Std.ExtTreeSet.mem_iff_contains]

end Names
end CommitPipeline
