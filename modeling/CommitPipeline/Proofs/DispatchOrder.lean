import CommitPipeline.Proofs.History
import CommitPipeline.Store.Memory

/-! What has been finished by the time an operation is started. When graphs run one at a time, every
operation of every earlier commit; in both modes, the dependencies that the mode looks at. -/
namespace CommitPipeline

namespace Core
variable {c : Core} {now : Instant} {operations : List Operation} {op other : Operation}
  {id : OperationId} {history : List Entry}

/-- An operation starts in its turn: its graph is the oldest one, every operation that was ever
queued with a lower snapshot has been finalized since, and so have its dependencies in its own
graph. -/
structure StartsInTurn (c : Core) (history : List Entry) (op : Operation) (graph : Graph) :
    Prop where
  oldest : c.queue.oldest? = some graph
  member : op.id ∈ graph.members
  snapshot : op.snapshot = graph.snapshot
  earlier : ∀ {later entry past lower}, history = later ++ entry :: past →
    entry.queued? = some lower → lower.snapshot < op.snapshot →
      ∀ id ∈ lower.members, FinalizedIn later id
  own : ∀ id ∈ op.dependencies, id ∈ graph.members →
    ∃ other, c.table[id]? = some other ∧ other.status.isFinal = true

/-- A dependency holds up nobody: it is live and final, or it is gone because it was finalized in
this run or an earlier one. -/
def IsMet (c : Core) (history : List Entry) (id : OperationId) : Prop :=
  (∃ other, c.table[id]? = some other ∧ other.status.isFinal = true) ∨
    (id ∉ c.table ∧ (FinalizedIn history id ∨ RetiredIn history id))

/-- An operation starts with nothing left to wait for. Its dependencies are met, and whatever calls
have declared since it was last finalized is among them. -/
structure StartsUnhindered (c : Core) (history : List Entry) (op : Operation) : Prop where
  met : ∀ id ∈ op.dependencies, c.IsMet history id
  declared : ∀ {later entry past id}, history = later ++ entry :: past →
    entry.Declares op.id id → ¬ FinalizedIn later op.id → id ∈ op.dependencies

/-- Nothing that holds up an operation is left when the operation is started. -/
theorem Dispatches.met (dispatches : c.Dispatches now operations) (member : op ∈ operations)
    (depends : id ∈ op.dependencies) : c.readiness.isUnmet op id = false := by
  obtain ⟨graph, -, -, waiting, -, isReady, rfl⟩ := dispatches.ready member
  exact (Readiness.isReady_iff.mp isReady).2.2.2 id depends

/-- A graph at the head of the queue has the lowest snapshot. -/
theorem Filed.oldest_le {graph other : Graph} (filed : c.Filed)
    (oldest : c.queue.oldest? = some graph) (queued : other ∈ c.queue.graphs) :
    graph.snapshot ≤ other.snapshot := by
  obtain ⟨rest, graphs⟩ := List.head?_eq_some_iff.mp oldest
  rw [graphs] at queued
  rcases List.mem_cons.mp queued with rfl | later
  · exact Nat.le_refl _
  · exact Nat.le_of_lt ((List.pairwise_cons.mp (graphs ▸ filed.ascending)).1 other later)

/-- What is final before a pass is final, and the same, at the end of the call. -/
theorem settled_final (dispatches : c.prune.2.Dispatches now operations)
    (held : c.prune.2.table[id]? = some op) (final : op.status.isFinal = true) :
    (c.settled operations).table[id]? = some op := final_kept dispatches held final

theorem Sound.starts_in_turn (filed : c.Filed) (inOrder : c.algorithm = .commitGraph)
    (dispatches : c.prune.2.Dispatches now operations)
    (sound : (c.settled operations).Sound history) (member : op ∈ operations) :
    ∃ graph, (c.settled operations).StartsInTurn history op graph := by
  obtain ⟨graph, oldest, listed⟩ := settled_dispatched dispatches inOrder member
  have queued : graph ∈ (c.settled operations).queue.graphs := List.mem_of_head? oldest
  have live := lookup_started dispatches filed.prune member
  have snapshot := sound.filed.snapshot graph queued op.id listed op live
  refine ⟨graph, oldest, listed, snapshot, ?_, ?_⟩
  · intro later entry past lower split found isLower id lowerMember
    by_contra waiting
    have lowerQueued := ((sound.recorded.queued split found id lowerMember).mp waiting).1
    exact absurd (sound.filed.oldest_le oldest lowerQueued) (by omega)
  · intro id depends ownMember
    have queuedBefore : graph ∈ c.prune.2.queue.graphs := settled_queue c operations ▸ queued
    obtain ⟨other, held⟩ := filed.prune.live queuedBefore ownMember
    have algorithm : c.prune.2.readiness.algorithm = .commitGraph :=
      (pruned_algorithm c).trans inOrder
    have together : other.snapshot = op.snapshot :=
      (filed.prune.snapshot graph queuedBefore id ownMember other held).trans snapshot.symm
    have final := (Readiness.isUnmet_commitGraph algorithm).mp (dispatches.met member depends)
      other held together
    exact ⟨other, settled_final dispatches held final, final⟩

theorem Sound.starts_unhindered (filed : c.Filed) (atOnce : c.algorithm = .flatGraph)
    (dispatches : c.prune.2.Dispatches now operations)
    (sound : (c.settled operations).Sound history) (member : op ∈ operations) :
    (c.settled operations).StartsUnhindered history op := by
  have algorithm : c.prune.2.readiness.algorithm = .flatGraph :=
    (pruned_algorithm c).trans atOnce
  refine ⟨fun id depends => ?_, fun split declares waiting => ?_⟩
  · rcases (Readiness.isUnmet_flatGraph algorithm).mp (dispatches.met member depends) with
      ⟨other, held, final⟩ | ⟨gone, retired⟩
    · exact .inl ⟨other, settled_final dispatches held final, final⟩
    · refine .inr ⟨?_, sound.recorded.retired id ((settled_retired c operations).symm ▸ retired)⟩
      exact fun live => gone ((startAll_continues dispatches filed.prune).mem_iff.mp live)
  · obtain ⟨other, held, -, depends⟩ := sound.recorded.declared split declares waiting
    cases (lookup_started dispatches filed.prune member).symm.trans held
    exact depends

end Core

section Run
variable {σ : Type} [OperationStore σ] {names : Names} {history : List Entry} {e : Engine σ}

/-- When graphs run one at a time, whatever a call starts is in its turn, and whatever has been
handed out and not reported yet stands in the oldest graph. -/
theorem commitGraph_in_turn (run : Run names .commitGraph history e) :
    (∀ entry, history.head? = some entry → ∀ op ∈ entry.dispatched,
      ∃ graph, e.core.StartsInTurn history op graph) ∧
    ∀ id ∈ e.core.active, ∃ graph, e.core.queue.oldest? = some graph ∧ id ∈ graph.members := by
  refine ⟨fun entry latest op member => ?_, run.sound.leading run.algorithm_eq⟩
  obtain ⟨earlier, rfl⟩ := List.head?_eq_some_iff.mp latest
  obtain ⟨c, now, operations, filed, algorithm, dispatches, started, left⟩ := run.dispatched member
  have sound := run.sound
  rw [left] at sound ⊢
  exact sound.starts_in_turn filed algorithm dispatches started

/-- Two commits, the first of which has been completed, the latest call first. The second operation
waits for the first, the third one for nobody but the order of the commits. -/
def firstCommitCompleted : List Call := [
  .request .first (.complete (.ofNat 2)),
  .request .first (.complete (.ofNat 1)),
  .request .first (.append 2 [.new (.ofNat 3)] []),
  .request .first
    (.append 1 [.new (.ofNat 1), .new (.ofNat 2)] [⟨.ofNat 2, .ofNat 1⟩])]

theorem second_commit_in_turn :
    let run := runOf (.new "uploads" []) .commitGraph Memory.empty firstCommitCompleted
    (run.1.head?.map fun entry => entry.dispatched.map (·.id)) = some [.ofNat 3] ∧
      run.2.core.active.toList = [.ofNat 3] ∧
      (∀ entry, run.1.head? = some entry → ∀ op ∈ entry.dispatched,
        ∃ graph, run.2.core.StartsInTurn run.1 op graph) ∧
      ∀ id ∈ run.2.core.active, ∃ graph,
        run.2.core.queue.oldest? = some graph ∧ id ∈ graph.members :=
  ⟨by decide +kernel, by decide +kernel,
    commitGraph_in_turn
      (.of_calls (.new "uploads" []) .commitGraph Memory.empty firstCommitCompleted)⟩

/-- When all graphs are considered, whatever a call starts has nothing left to wait for. -/
theorem flatGraph_unhindered (run : Run names .flatGraph history e) :
    ∀ entry, history.head? = some entry → ∀ op ∈ entry.dispatched,
      e.core.StartsUnhindered history op := by
  intro entry latest op member
  obtain ⟨earlier, rfl⟩ := List.head?_eq_some_iff.mp latest
  obtain ⟨c, now, operations, filed, algorithm, dispatches, started, left⟩ := run.dispatched member
  have sound := run.sound
  rw [left] at sound ⊢
  exact sound.starts_unhindered filed algorithm dispatches started

/-- An operation that waits for one of an earlier commit and, since a later commit, for one of that.
Both have been completed, the latest call first; the second is still live, as its graph is. -/
def dependenciesCompleted : List Call := [
  .request .first (.complete (.ofNat 3)),
  .request .first (.complete (.ofNat 1)),
  .request .first
    (.append 3 [.new (.ofNat 3), .new (.ofNat 4)] [⟨.ofNat 2, .ofNat 3⟩]),
  .request .first (.append 2 [(Operation.new (.ofNat 2)).dependingOn (.ofNat 1)] []),
  .request .first (.append 1 [.new (.ofNat 1)] []),
  .request .first (.setLimit 1)]

theorem late_dependency_met :
    let run := runOf (.new "uploads" []) .flatGraph Memory.empty dependenciesCompleted
    (run.1.head?.map fun entry =>
        entry.dispatched.map fun op => (op.id, op.dependencies.toList)) =
        some [(.ofNat 2, [.ofNat 1, .ofNat 3])] ∧
      ∀ entry, run.1.head? = some entry → ∀ op ∈ entry.dispatched,
        run.2.core.StartsUnhindered run.1 op :=
  ⟨by decide +kernel,
    flatGraph_unhindered
      (.of_calls (.new "uploads" []) .flatGraph Memory.empty dependenciesCompleted)⟩

end Run
end CommitPipeline
