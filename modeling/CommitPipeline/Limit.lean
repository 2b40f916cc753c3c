/-! Counts of a pipeline that have a bound or a default. -/
namespace CommitPipeline

/-- How many operations run at once unless a pipeline is told otherwise. -/
def defaultLimit : Nat := 8

/-- The largest suspend count and the largest limit. -/
def maxCount : Nat := Nat.pow 2 64 - 1

end CommitPipeline
