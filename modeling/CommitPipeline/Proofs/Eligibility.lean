import CommitPipeline.Proofs.CrossCommitEdges
import CommitPipeline.Proofs.Progress

/-! Which operations are offered to the dispatcher and in which order, told in terms of the queue,
the table and the retired set. A hold apart, an operation is offered exactly if it is `Unhindered`;
those that are offered come by priority, and those of one priority as they stand in the queue. -/
namespace CommitPipeline

/-! ### Sorting by priority -/

namespace Listed
variable {before : Listed → Listed → Prop} {entries : List Listed}

/-- One entry has the higher priority, or the same one and comes first by another order. -/
def Precedes (before : Listed → Listed → Prop) (one other : Listed) : Prop :=
  other.operation.priority < one.operation.priority ∨
    (one.operation.priority = other.operation.priority ∧ before one other)

theorem Precedes.priority_le {one other : Listed} (precedes : Precedes before one other) :
    other.operation.priority ≤ one.operation.priority := by
  rcases precedes with higher | ⟨same, -⟩
  · exact Int.le_of_lt higher
  · exact Int.le_of_eq same.symm

/-- An entry that comes before all others by the second order is put in its place. -/
theorem insertByPriority_pairwise {entry : Listed} (sorted : entries.Pairwise (Precedes before))
    (first : ∀ other ∈ entries, before entry other) :
    (insertByPriority entry entries).Pairwise (Precedes before) := by
  induction entries with
  | nil => exact List.pairwise_singleton ..
  | cons other rest ih =>
    obtain ⟨otherFirst, restSorted⟩ := List.pairwise_cons.mp sorted
    rw [insertByPriority]
    split
    · rename_i notHigher
      refine List.pairwise_cons.mpr ⟨fun later member => ?_, sorted⟩
      have bound : later.operation.priority ≤ entry.operation.priority := by
        rcases List.mem_cons.mp member with rfl | member
        · exact notHigher
        · exact Int.le_trans (otherFirst later member).priority_le notHigher
      rcases Int.lt_or_eq_of_le bound with lower | same
      · exact .inl lower
      · exact .inr ⟨same.symm, first later member⟩
    · rename_i higher
      refine List.pairwise_cons.mpr ⟨fun later member => ?_, ih restSorted fun later member =>
        first later (List.mem_cons_of_mem other member)⟩
      rcases List.mem_cons.mp ((insertByPriority_perm entry rest).mem_iff.mp member) with
        rfl | member
      · exact .inl (Int.not_le.mp higher)
      · exact otherFirst later member

/-- Sorting by priority keeps the order of the entries of one priority. -/
theorem byPriority_pairwise (ordered : entries.Pairwise before) :
    (byPriority entries).Pairwise (Precedes before) := by
  induction ordered with
  | nil => exact .nil
  | @cons entry rest first _ ih =>
    refine insertByPriority_pairwise ih fun other member => ?_
    exact first other ((byPriority_perm rest).mem_iff.mp member)

end Listed

/-! ### Places in the queue -/

/-- An operation stands in an earlier graph than another, or at an earlier place of the same
graph. -/
def StandsBefore (graphs : List Graph) (one other : OperationId) : Prop :=
  ∃ (index otherIndex : Nat) (graph otherGraph : Graph) (place otherPlace : Nat),
    graphs[index]? = some graph ∧ graph.members[place]? = some one ∧
    graphs[otherIndex]? = some otherGraph ∧ otherGraph.members[otherPlace]? = some other ∧
    (index < otherIndex ∨ (index = otherIndex ∧ place < otherPlace))

/-- The live operations of some graphs come in the order in which they stand in a queue that has
these graphs from the given index on. -/
theorem Listed.ofGraphs_pairwise {queued graphs : List Graph} {index : Nat} (table : Table)
    (placed : ∀ (later : Nat) (graph : Graph),
      graphs[later]? = some graph → queued[index + later]? = some graph) :
    (ofGraphs table index graphs).Pairwise fun one other =>
      StandsBefore queued one.id other.id := by
  induction graphs generalizing index with
  | nil => exact .nil
  | cons graph rest ih =>
    have found : queued[index]? = some graph := placed 0 graph rfl
    have placedRest (later : Nat) (other : Graph) (there : rest[later]? = some other) :
        queued[index + 1 + later]? = some other := by
      rw [Nat.add_assoc, Nat.add_comm 1]
      exact placed (later + 1) other there
    have within : graph.members.Pairwise (StandsBefore queued) := by
      refine List.pairwise_iff_getElem.mpr fun place otherPlace inside otherInside order => ?_
      exact ⟨index, index, graph, graph, place, otherPlace, found,
        List.getElem?_eq_getElem inside, found, List.getElem?_eq_getElem otherInside,
        .inr ⟨rfl, order⟩⟩
    rw [ofGraphs]
    refine List.pairwise_append.mpr ⟨?_, ih placedRest, fun one here other there => ?_⟩
    · refine within.filterMap _ fun id otherId stands one made other otherMade => ?_
      obtain ⟨_, -, rfl⟩ := Option.map_eq_some_iff.mp made
      obtain ⟨_, -, rfl⟩ := Option.map_eq_some_iff.mp otherMade
      exact stands
    · obtain ⟨id, member, made⟩ := List.mem_filterMap.mp here
      obtain ⟨_, -, rfl⟩ := Option.map_eq_some_iff.mp made
      obtain ⟨later, home, homeFound, -, listed, -⟩ := mem_ofGraphs.mp there
      obtain ⟨place, standsAt⟩ := List.mem_iff_getElem?.mp member
      obtain ⟨otherPlace, otherStandsAt⟩ := List.mem_iff_getElem?.mp listed
      exact ⟨index, index + 1 + later, graph, home, place, otherPlace, found, standsAt,
        placedRest later home homeFound, otherStandsAt, .inl (by omega)⟩

/-- The graphs that the algorithm draws from have their places in the queue. -/
theorem Readiness.candidate_at {r : Readiness} {index : Nat} {graph : Graph}
    (found : r.candidates[index]? = some graph) : r.queue.graphs[index]? = some graph := by
  rw [candidates] at found
  split at found
  · rw [List.getElem?_take] at found
    split at found
    · exact found
    · cases found
  · exact found

theorem Readiness.considered_pairwise (r : Readiness) :
    r.considered.Pairwise fun one other => StandsBefore r.queue.graphs one.id other.id :=
  Listed.ofGraphs_pairwise r.table fun index graph found => by
    rw [Nat.zero_add]
    exact candidate_at found

namespace Core
variable {c : Core} {id dependency : OperationId} {op : Operation} {now : Instant}

/-! ### What keeps an operation waiting -/

/-- A live operation that is final. -/
def Through (c : Core) (id : OperationId) : Prop :=
  ∃ op, c.table[id]? = some op ∧ op.status.isFinal = true

/-- A dependency that holds up nobody: when graphs run one at a time, it is final or stands outside
the oldest graph; when all are considered, it is final, or gone and known to have been final. -/
def Cleared (c : Core) (dependency : OperationId) : Prop :=
  match c.algorithm with
  | .commitGraph => ∀ graph, c.queue.oldest? = some graph →
    dependency ∈ graph.members → c.Through dependency
  | .flatGraph => c.Through dependency ∨ (dependency ∉ c.table ∧ dependency ∈ c.retired)

/-- A live operation that nothing but a hold keeps from being started: it is pending, when graphs
run one at a time it stands in the oldest one, and its dependencies hold up nobody. -/
structure Unhindered (c : Core) (id : OperationId) (op : Operation) : Prop where
  held : c.table[id]? = some op
  pending : op.status = .pending
  inTurn : c.algorithm = .commitGraph →
    ∃ graph, c.queue.oldest? = some graph ∧ id ∈ graph.members
  cleared : ∀ dependency ∈ op.dependencies, c.Cleared dependency

/-- An operation is to be started before another: it has the higher priority, or the same one and
stands before it in the queue. -/
def GoesBefore (c : Core) (id other : OperationId) : Prop :=
  ∃ op otherOp, c.table[id]? = some op ∧ c.table[other]? = some otherOp ∧
    (otherOp.priority < op.priority ∨
      (op.priority = otherOp.priority ∧ StandsBefore c.queue.graphs id other))

theorem mem_candidates_commitGraph {graph : Graph} (inOrder : c.algorithm = .commitGraph) :
    graph ∈ c.readiness.candidates ↔ c.queue.oldest? = some graph := by
  change graph ∈ (match c.algorithm with
    | .commitGraph => c.queue.graphs.take 1
    | .flatGraph => c.queue.graphs) ↔ c.queue.graphs.head? = some graph
  rw [inOrder]
  cases c.queue.graphs <;> simp [eq_comm]

theorem candidates_flatGraph (atOnce : c.algorithm = .flatGraph) :
    c.readiness.candidates = c.queue.graphs := by
  change (match c.algorithm with
    | .commitGraph => c.queue.graphs.take 1
    | .flatGraph => c.queue.graphs) = c.queue.graphs
  rw [atOnce]

/-- An operation of a candidate graph is one whose snapshot says so. -/
theorem Filed.inCandidateGraph (filed : c.Filed) (held : c.table[id]? = some op) :
    c.readiness.inCandidateGraph op = true ↔
      ∃ graph ∈ c.readiness.candidates, id ∈ graph.members := by
  obtain ⟨home, queued, member, snapshot⟩ := filed.graph_of held
  cases algorithm : c.algorithm with
  | commitGraph =>
    rw [Readiness.inCandidateGraph_commitGraph algorithm]
    simp only [mem_candidates_commitGraph algorithm]
    refine exists_congr fun graph => and_congr_right fun oldest => ?_
    have first : graph ∈ c.queue.graphs := List.mem_of_head? oldest
    constructor
    · intro same
      rw [eq_of_snapshot_eq filed.ascending first queued (same.trans snapshot)]
      exact member
    · intro inside
      rw [filed.same_graph first queued inside member, snapshot]
  | flatGraph =>
    rw [candidates_flatGraph algorithm]
    have considered : c.readiness.inCandidateGraph op = true := by
      simp [Readiness.inCandidateGraph, readiness, algorithm]
    exact iff_of_true considered ⟨home, queued, member⟩

/-- What the choice of operations takes for unmet is what has not been cleared. For an operation
whose graph is not drawn from, the two may differ. -/
theorem Filed.isUnmet_iff (filed : c.Filed)
    (candidate : c.readiness.inCandidateGraph op = true) :
    c.readiness.isUnmet op dependency = false ↔ c.Cleared dependency := by
  cases algorithm : c.algorithm with
  | commitGraph =>
    obtain ⟨graph, oldest, same⟩ := (Readiness.inCandidateGraph_commitGraph algorithm).mp candidate
    have first : graph ∈ c.queue.graphs := List.mem_of_head? oldest
    have cleared : c.Cleared dependency ↔
        (dependency ∈ graph.members → c.Through dependency) := by
      rw [Cleared, algorithm]
      exact ⟨fun cleared => cleared graph oldest,
        fun cleared other isOldest => Option.some.inj (oldest.symm.trans isOldest) ▸ cleared⟩
    rw [filed.isUnmet_within algorithm first same.symm, cleared]
    exact Iff.rfl
  | flatGraph =>
    rw [Readiness.isUnmet_flatGraph algorithm, Cleared, algorithm]
    exact Iff.rfl

/-- In a pipeline that files its operations, the two ways to tell who is hindered agree. -/
theorem Filed.startable_iff (filed : c.Filed) : c.Startable id op ↔ c.Unhindered id op := by
  have inTurn : (∃ graph ∈ c.readiness.candidates, id ∈ graph.members) →
      c.algorithm = .commitGraph →
        ∃ graph, c.queue.oldest? = some graph ∧ id ∈ graph.members := by
    rintro ⟨graph, candidate, member⟩ inOrder
    exact ⟨graph, (mem_candidates_commitGraph inOrder).mp candidate, member⟩
  constructor
  · rintro ⟨considered, held, pending, candidate, met⟩
    refine ⟨held, pending, inTurn considered, fun dependency depends => ?_⟩
    exact (filed.isUnmet_iff candidate).mp (met dependency depends)
  · rintro ⟨held, pending, inTurn, cleared⟩
    have considered : ∃ graph ∈ c.readiness.candidates, id ∈ graph.members := by
      cases algorithm : c.algorithm with
      | commitGraph =>
        obtain ⟨graph, oldest, member⟩ := inTurn algorithm
        exact ⟨graph, (mem_candidates_commitGraph algorithm).mpr oldest, member⟩
      | flatGraph =>
        obtain ⟨graph, queued, member, -⟩ := filed.graph_of held
        exact ⟨graph, candidates_flatGraph algorithm ▸ queued, member⟩
    have candidate := (filed.inCandidateGraph held).mpr considered
    exact ⟨considered, held, pending, candidate, fun dependency depends =>
      (filed.isUnmet_iff candidate).mpr (cleared dependency depends)⟩

theorem mem_ready : id ∈ c.ready now ↔ ∃ op, c.Startable id op ∧ op.isHeld now = false := by
  rw [ready, Readiness.mem_ready]
  constructor
  · rintro ⟨graph, candidate, member, op, held, isReady⟩
    obtain ⟨pending, inCandidateGraph, free, met⟩ := Readiness.isReady_iff.mp isReady
    exact ⟨op, ⟨⟨graph, candidate, member⟩, held, pending, inCandidateGraph, met⟩, free⟩
  · rintro ⟨op, ⟨⟨graph, candidate, member⟩, held, pending, inCandidateGraph, met⟩, free⟩
    exact ⟨graph, candidate, member, op, held,
      Readiness.isReady_iff.mpr ⟨pending, inCandidateGraph, free, met⟩⟩

theorem Filed.mem_ready_iff (filed : c.Filed) :
    id ∈ c.ready now ↔ ∃ op, c.Unhindered id op ∧ op.isHeld now = false := by
  simp only [mem_ready, filed.startable_iff]

/-- The test of a live operation tells whether it is on the list. -/
theorem Filed.isReady_iff_mem_ready (filed : c.Filed) (held : c.table[id]? = some op) :
    c.readiness.isReady op now = true ↔ id ∈ c.ready now := by
  rw [ready, Readiness.mem_ready]
  constructor
  · intro isReady
    obtain ⟨graph, candidate, member⟩ :=
      (filed.inCandidateGraph held).mp (Readiness.isReady_iff.mp isReady).2.1
    exact ⟨graph, candidate, member, op, held, isReady⟩
  · rintro ⟨-, -, -, other, found, isReady⟩
    cases held.symm.trans found
    exact isReady

/-- Those that may start come by priority, and within one priority as they stand in the queue. -/
theorem ready_pairwise (c : Core) (now : Instant) : (c.ready now).Pairwise c.GoesBefore := by
  have sorted := Listed.byPriority_pairwise
    (c.readiness.considered_pairwise.sublist
      (List.filter_sublist (p := fun entry => c.readiness.isReady entry.operation now)))
  refine List.pairwise_map.mpr (sorted.imp_of_mem fun {one other} member otherMember precedes => ?_)
  have held {entry : Listed} (member : entry ∈ Listed.byPriority
      (c.readiness.considered.filter fun entry => c.readiness.isReady entry.operation now)) :
      c.table[entry.id]? = some entry.operation :=
    (Readiness.mem_considered (List.mem_filter.mp
      ((Listed.byPriority_perm _).mem_iff.mp member)).1).2
  exact ⟨one.operation, other.operation, held member, held otherMember, precedes⟩

end Core

section Run
variable {σ : Type} [OperationStore σ] {names : Names} {algorithm : Algorithm}
  {history : List Entry} {e : Engine σ}

/-- In every state of every run and at any instant, each operation that may start is listed once:
those that are unhindered and not held. They come by priority, then by graph, then by their place in
the graph. Testing a live operation comes to the same as looking it up on the list. -/
theorem ready_unhindered_in_order (run : Run names algorithm history e) (now : Instant) :
    (e.core.ready now).Nodup ∧
    (∀ id, id ∈ e.core.ready now ↔
      ∃ op, e.core.Unhindered id op ∧ ∀ hold, op.hold = some hold → hold ≤ now) ∧
    (e.core.ready now).Pairwise e.core.GoesBefore ∧
    ∀ (id : OperationId) (op : Operation), e.core.table[id]? = some op →
      (id ∈ e.core.ready now ↔ e.core.readiness.isReady op now = true) := by
  have filed := run.sound.filed
  refine ⟨filed.ready_nodup, fun id => ?_, e.core.ready_pairwise now, fun id op held =>
    (filed.isReady_iff_mem_ready held).symm⟩
  rw [filed.mem_ready_iff]
  refine exists_congr fun op => and_congr_right fun _ => ?_
  rw [Bool.eq_false_iff, Ne, Operation.isHeld_iff]
  simp only [not_exists, not_and, Instant.not_lt]

/-- Two commits in a suspended pipeline, the latest call first. The third operation is urgent
and the second one is held. -/
def urgentAndHeld : List Call := [
  .request .first (.append 2 [.new (.ofNat 4), .new (.ofNat 5)] []),
  .request .first (.append 1
    [.new (.ofNat 1), { Operation.new (.ofNat 2) with hold := some .last },
      { Operation.new (.ofNat 3) with priority := 5 }] []),
  .request .first (.suspend 1)]

theorem urgent_first_held_left_out :
    let e := (runOf (.new "uploads" []) .flatGraph Memory.empty urgentAndHeld).2
    e.core.ready .first = [.ofNat 3, .ofNat 1, .ofNat 4, .ofNat 5] ∧
      (e.core.ready .first).Nodup ∧
      (∀ id, id ∈ e.core.ready .first ↔
        ∃ op, e.core.Unhindered id op ∧ ∀ hold, op.hold = some hold → hold ≤ .first) ∧
      (e.core.ready .first).Pairwise e.core.GoesBefore ∧
      ∀ (id : OperationId) (op : Operation), e.core.table[id]? = some op →
        (id ∈ e.core.ready .first ↔ e.core.readiness.isReady op .first = true) :=
  ⟨by decide +kernel,
    ready_unhindered_in_order
      (.of_calls (.new "uploads" []) .flatGraph Memory.empty urgentAndHeld) .first⟩

end Run
end CommitPipeline
