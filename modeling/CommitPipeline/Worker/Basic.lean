import CommitPipeline.Request

/-! Workers perform operations. They are handed what the pipeline has started, one operation at a
time, and report back with requests like any other caller. -/
namespace CommitPipeline

/-- When handing an operation over ends the dispatcher for good. -/
inductive Breakdown where
  | never
  /-- As soon as one of the calls is rejected. -/
  | onRejection
  | always
  deriving DecidableEq

/-- What a worker does with an operation it is handed. -/
structure Reaction where
  /-- The calls it makes before it gives the dispatcher free. -/
  calls : List Request
  /-- A report it makes after a delay. -/
  report : Option (Delay × Request)
  breakdown : Breakdown

namespace Reaction

/-- The worker leaves the report to somebody else. -/
def none : Reaction := ⟨[], .none, .never⟩

/-- The worker makes one call at once and does not mind its rejection. -/
def call (request : Request) : Reaction := { none with calls := [request] }

/-- The worker reports later. -/
def later (delay : Delay) (request : Request) : Reaction :=
  { none with report := some (delay, request) }

end Reaction

/-- A worker may look at the state of the pipeline while it is handed an operation. -/
class Worker (ω : Type) where
  start : ω → Core → Operation → Reaction × ω

end CommitPipeline
