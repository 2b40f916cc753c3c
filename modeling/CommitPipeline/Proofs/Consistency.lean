import CommitPipeline.Proofs.History
import CommitPipeline.Store.Memory

/-! The containers of a pipeline agree in every state of every run, and a graph is in the queue for
exactly as long as one of its operations has not been finalized. -/
namespace CommitPipeline

/-- Queue, table, active set and recovered set of a pipeline tell the same story. -/
structure Core.Consistent (c : Core) : Prop where
  distinct : (c.queue.graphs.flatMap (·.members)).Nodup
  listed : ∀ id, id ∈ c.table ↔ ∃ graph ∈ c.queue.graphs, id ∈ graph.members
  named : ∀ (id : OperationId) (op : Operation), c.table[id]? = some op →
    op.id = id ∧ op.pipeline = c.names.current
  snapshot : ∀ graph ∈ c.queue.graphs, ∀ id ∈ graph.members, ∀ op : Operation,
    c.table[id]? = some op → op.snapshot = graph.snapshot
  busy : ∀ graph ∈ c.queue.graphs, ∃ id ∈ graph.members, c.Unfinished id
  handedOut : ∀ id ∈ c.active, ∃ op, c.table[id]? = some op ∧ op.status = .active
  running : ∀ (id : OperationId) (op : Operation),
    c.table[id]? = some op → op.status = .active → id ∉ c.active → id ∈ c.recovered
  recovered : ∀ id ∈ c.recovered, id ∈ c.table

/-- The graphs that a history queued and that are not through. -/
def Core.QueuesUnfinished (c : Core) (history : List Entry) : Prop :=
  ∀ {later entry earlier graph}, history = later ++ entry :: earlier →
    entry.queued? = some graph →
      (graph ∉ c.queue.graphs ↔ ∀ id ∈ graph.members, FinalizedIn later id)

namespace Core
variable {c : Core} {history : List Entry}

theorem Sound.consistent (sound : c.Sound history) : c.Consistent where
  distinct := sound.filed.distinct
  listed := sound.filed.listed
  named id op held := ⟨sound.filed.keyed id op held, sound.filed.owner id op held⟩
  snapshot := sound.filed.snapshot
  busy := sound.busy
  handedOut := sound.tracked.handedOut
  running id op held running notActive :=
    (sound.tracked.running id op held running).resolve_left notActive
  recovered := sound.tracked.recovered

theorem Sound.queuesUnfinished (sound : c.Sound history) : c.QueuesUnfinished history := by
  intro later entry earlier graph split found
  have queued := sound.recorded.queued split found
  constructor
  · intro gone id member
    by_contra waiting
    exact gone ((queued id member).mp waiting).1
  · intro finalized present
    obtain ⟨id, member, unfinished⟩ := sound.busy graph present
    exact (queued id member).mpr ⟨present, unfinished⟩ (finalized id member)

end Core

section Run
variable {σ : Type} [OperationStore σ] {names : Names} {algorithm : Algorithm}
  {history : List Entry} {e : Engine σ}

/-- Whatever is called, accepted or rejected, over whatever store, the containers agree, and a graph
is gone exactly when all its members were finalized after it was queued. -/
theorem run_consistent (run : Run names algorithm history e) :
    e.core.Consistent ∧ e.core.QueuesUnfinished history :=
  ⟨run.sound.consistent, run.sound.queuesUnfinished⟩

end Run

/-- Two commits, the second operation activated from outside and the first one completed, the latest
call first. -/
def twoCommits : List Call := [
  .request .first (.complete (.ofNat 1)),
  .request .first (.forceActive (.ofNat 2)),
  .request .first (.append 2 [.new (.ofNat 3)] []),
  .request .first
    (.append 1 [.new (.ofNat 1), .new (.ofNat 2)] [⟨.ofNat 2, .ofNat 1⟩])]

theorem two_commits_consistent :
    let run := runOf (.new "uploads" []) .commitGraph Memory.empty twoCommits
    run.2.core.Consistent ∧ run.2.core.QueuesUnfinished run.1 ∧
      run.2.core.queue.graphs = [⟨1, [.ofNat 1, .ofNat 2]⟩, ⟨2, [.ofNat 3]⟩] ∧
      run.2.core.active.toList = [] ∧ run.2.core.recovered.toList = [.ofNat 2] := by
  obtain ⟨consistent, queues⟩ :=
    run_consistent (.of_calls (.new "uploads" []) .commitGraph Memory.empty twoCommits)
  exact ⟨consistent, queues, by decide +kernel, by decide +kernel, by decide +kernel⟩

end CommitPipeline
