import CommitPipeline.Worker.Basic

/-! A worker with a fixed behaviour, for exercising pipelines. -/
namespace CommitPipeline

/-- What the worker does with an operation. -/
inductive Script where
  | nothing
  | complete
  | skip
  /-- Gives an operation back the first time and completes it after that. -/
  | retryOnce
  /-- Completes the operation and breaks down if it may not. -/
  | mustComplete
  | breakDown
  deriving DecidableEq

structure ScriptedWorker where
  script : Script
  /-- The operations handed over so far. -/
  seen : IdSet

namespace ScriptedWorker

def reaction (w : ScriptedWorker) (id : OperationId) : Reaction :=
  match w.script with
  | .nothing => .none
  | .complete => .call (.complete id)
  | .skip => .call (.skip id)
  | .retryOnce => .call (if w.seen.contains id then .complete id else .reset id none)
  | .mustComplete => { Reaction.call (.complete id) with breakdown := .onRejection }
  | .breakDown => { Reaction.none with breakdown := .always }

def start (w : ScriptedWorker) (_ : Core) (op : Operation) : Reaction × ScriptedWorker :=
  (w.reaction op.id, { w with seen := w.seen.insert op.id })

instance : Worker ScriptedWorker := ⟨start⟩

end ScriptedWorker
end CommitPipeline
