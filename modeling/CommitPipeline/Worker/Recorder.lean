import CommitPipeline.Core
import CommitPipeline.Worker.Basic

/-! A worker that keeps a record of what another one is handed. -/
namespace CommitPipeline

structure Recorder (ω : Type) where
  worker : ω
  /-- What was handed over, in order. -/
  started : List OperationId
  /-- The largest number of active operations that were found at a hand-over. -/
  peakActive : Nat

namespace Recorder
variable {ω : Type} [Worker ω]

def new (worker : ω) : Recorder ω := ⟨worker, [], 0⟩

def start (r : Recorder ω) (core : Core) (op : Operation) : Reaction × Recorder ω :=
  let (reaction, worker) := Worker.start r.worker core op
  (reaction,
   { worker
     started := r.started ++ [op.id]
     peakActive := max r.peakActive core.activeOperations.length })

instance : Worker (Recorder ω) := ⟨start⟩

end Recorder
end CommitPipeline
