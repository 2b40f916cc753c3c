import Mathlib.Data.List.Flatten
import Mathlib.Data.List.Nodup
import CommitPipeline.Proofs.Admission

/-! Queue and table tell the same story. The graphs in the queue list every live operation once, in
the order of the commits, and every operation carries the snapshot of its graph. Each part of a
call keeps this: the change itself, the removal of drained graphs, and the start of operations. -/
namespace CommitPipeline

/-- The same operation at a later time. Its status and its hold may have changed, and it may wait
for more. -/
structure Operation.Continues (before after : Operation) : Prop where
  id : after.id = before.id
  pipeline : after.pipeline = before.pipeline
  snapshot : after.snapshot = before.snapshot
  priority : after.priority = before.priority
  payload : after.payload = before.payload
  dependencies : ∀ id ∈ before.dependencies, id ∈ after.dependencies

theorem Operation.continues_of_eq {before after : Operation} {status : Status}
    {hold : Option Instant} (same : after = { before with status, hold }) :
    before.Continues after := by
  subst same
  exact ⟨rfl, rfl, rfl, rfl, rfl, fun _ member => member⟩

/-- A table holds the same operations at a later time, and no others. -/
def Table.Continues (before after : Table) : Prop :=
  ∀ id : OperationId, Option.Rel Operation.Continues before[id]? after[id]?

section Continues
variable {before after table : Table} {id : OperationId} {op : Operation}

theorem Table.Continues.forward (continues : before.Continues after)
    (held : before[id]? = some op) : ∃ later, after[id]? = some later ∧ op.Continues later := by
  have related := continues id
  rw [held] at related
  cases found : after[id]? with
  | none => simp [found] at related
  | some later => exact ⟨later, rfl, by simpa [found] using related⟩

theorem Table.Continues.backward (continues : before.Continues after)
    (held : after[id]? = some op) :
    ∃ earlier, before[id]? = some earlier ∧ earlier.Continues op := by
  have related := continues id
  rw [held] at related
  cases found : before[id]? with
  | none => simp [found] at related
  | some earlier => exact ⟨earlier, rfl, by simpa [found] using related⟩

theorem Table.Continues.mem_iff (continues : before.Continues after) :
    id ∈ after ↔ id ∈ before := by
  rw [mem_table, mem_table]
  constructor
  · rintro ⟨op, held⟩
    obtain ⟨earlier, found, -⟩ := continues.backward held
    exact ⟨earlier, found⟩
  · rintro ⟨op, held⟩
    obtain ⟨later, found, -⟩ := continues.forward held
    exact ⟨later, found⟩

theorem Operation.Continues.refl (op : Operation) : op.Continues op :=
  ⟨rfl, rfl, rfl, rfl, rfl, fun _ member => member⟩

theorem Table.Continues.refl (table : Table) : table.Continues table := by
  intro id
  cases table[id]? with
  | none => exact .none
  | some op => exact .some (.refl op)

theorem modify_continues {change : Operation → Operation}
    (continued : ∀ op : Operation, op.Continues (change op)) :
    Table.Continues table (table.modify id change) := by
  intro key
  rw [lookup_modify]
  split
  · cases table[key]? with
    | none => exact .none
    | some op => exact .some (continued op)
  · exact Table.Continues.refl table key

theorem Core.withEdges_continues (edges : List Edge) (op : Operation) :
    op.Continues (Core.withEdges edges op) := by
  rw [Core.withEdges_eq]
  exact ⟨rfl, rfl, rfl, rfl, rfl, fun id member => Core.mem_withEdges.mpr (.inl member)⟩

end Continues

theorem eq_of_snapshot_eq {graphs : List Graph} {one other : Graph}
    (ascending : graphs.Pairwise (·.snapshot < ·.snapshot))
    (oneMember : one ∈ graphs) (otherMember : other ∈ graphs)
    (same : one.snapshot = other.snapshot) : one = other := by
  have distinct : (graphs.map (·.snapshot)).Nodup :=
    List.pairwise_map.mpr (ascending.imp Nat.ne_of_lt)
  exact List.inj_on_of_nodup_map distinct oneMember otherMember same

namespace Core

/-- The queue lists the operations of the table, each once. -/
structure Filed (c : Core) : Prop where
  distinct : (c.queue.graphs.flatMap (·.members)).Nodup
  listed : ∀ id, id ∈ c.table ↔ ∃ graph ∈ c.queue.graphs, id ∈ graph.members
  keyed : c.table.Keyed
  owner : ∀ (id : OperationId) (op : Operation),
    c.table[id]? = some op → op.pipeline = c.names.current
  snapshot : ∀ graph ∈ c.queue.graphs, ∀ id ∈ graph.members, ∀ op : Operation,
    c.table[id]? = some op → op.snapshot = graph.snapshot
  ascending : c.queue.graphs.Pairwise (·.snapshot < ·.snapshot)
  accepted : ∀ graph ∈ c.queue.graphs, ∃ latest,
    c.queue.latest = some latest ∧ graph.snapshot ≤ latest

theorem filed_new (names : Names) (algorithm : Algorithm) : (new names algorithm).Filed where
  distinct := List.nodup_nil
  listed id := by simp [new, Queue.empty]
  keyed id op held := by simp [new] at held
  owner id op held := by simp [new] at held
  snapshot := nofun
  ascending := .nil
  accepted := nofun

variable {c after : Core} {id : OperationId} {op : Operation} {graph : Graph}

/-- A live operation stands in exactly one graph. -/
theorem Filed.graph_of (filed : c.Filed) (held : c.table[id]? = some op) :
    ∃ graph ∈ c.queue.graphs, id ∈ graph.members ∧ op.snapshot = graph.snapshot := by
  obtain ⟨graph, queued, member⟩ := (filed.listed id).mp (mem_table.mpr ⟨op, held⟩)
  exact ⟨graph, queued, member, filed.snapshot graph queued id member op held⟩

theorem Filed.live (filed : c.Filed) (queued : graph ∈ c.queue.graphs)
    (member : id ∈ graph.members) : ∃ op, c.table[id]? = some op :=
  mem_table.mp ((filed.listed id).mpr ⟨graph, queued, member⟩)

theorem Filed.same_graph {other : Graph} (filed : c.Filed) (queued : graph ∈ c.queue.graphs)
    (otherQueued : other ∈ c.queue.graphs) (member : id ∈ graph.members)
    (otherMember : id ∈ other.members) : graph = other := by
  obtain ⟨op, held⟩ := filed.live queued member
  exact eq_of_snapshot_eq filed.ascending queued otherQueued
    ((filed.snapshot graph queued id member op held).symm.trans
      (filed.snapshot other otherQueued id otherMember op held))

/-- Whatever leaves the graphs alone and keeps the operations keeps the filing. -/
theorem Filed.of_continues (filed : c.Filed) (names : after.names = c.names)
    (graphs : after.queue.graphs = c.queue.graphs) (latest : after.queue.latest = c.queue.latest)
    (continues : c.table.Continues after.table) : after.Filed where
  distinct := graphs ▸ filed.distinct
  listed id := by rw [continues.mem_iff, graphs, filed.listed]
  keyed id op held := by
    obtain ⟨earlier, found, kept⟩ := continues.backward held
    exact kept.id.trans (filed.keyed id earlier found)
  owner id op held := by
    obtain ⟨earlier, found, kept⟩ := continues.backward held
    exact kept.pipeline.trans (names ▸ filed.owner id earlier found)
  snapshot graph queued id member op held := by
    obtain ⟨earlier, found, kept⟩ := continues.backward held
    exact kept.snapshot.trans (filed.snapshot graph (graphs ▸ queued) id member earlier found)
  ascending := graphs ▸ filed.ascending
  accepted := by
    rw [graphs, latest]
    exact filed.accepted

/-- The operations of a new batch, and the edges onto earlier ones, as they are checked. -/
structure BatchFits (c : Core) (queue : Queue) (snapshot : Nat) (operations : List Operation)
    (edges : List Edge) : Prop where
  pushed : c.queue.push ⟨snapshot, operations.map (·.id)⟩ = .ok queue
  distinct : (operations.map (·.id)).Nodup
  fresh : ∀ op ∈ operations, op.id ∉ c.table
  stamped : ∀ op ∈ operations,
    op.pipeline = c.names.current ∧ op.snapshot = snapshot ∧ op.status = .pending
  outer : ∀ edge ∈ edges, edge.operation ∉ operations.map (·.id) ∧
    ∃ op, c.table[edge.operation]? = some op ∧ op.status.isFinal = false

section Batch
variable {queue : Queue} {snapshot : Nat} {operations : List Operation} {edges : List Edge}

theorem BatchFits.absent (fits : c.BatchFits queue snapshot operations edges)
    (held : c.table[id]? = some op) : id ∉ operations.map (·.id) := by
  intro member
  obtain ⟨one, listed, rfl⟩ := List.mem_map.mp member
  exact fits.fresh one listed (mem_table.mpr ⟨op, held⟩)

theorem lookup_batch_member (fits : c.BatchFits queue snapshot operations edges)
    (member : op ∈ operations) :
    (c.queueBatch queue snapshot operations edges).core.table[op.id]? = some op :=
  lookup_enlist_member fits.distinct member

theorem lookup_batch_other (filed : c.Filed) (absent : id ∉ operations.map (·.id)) :
    (c.queueBatch queue snapshot operations edges).core.table[id]? =
      c.table[id]?.map (withEdges edges) :=
  (lookup_enlist_other absent).trans (lookup_addEdges edges filed.keyed)

/-- After a batch is queued an operation is one of the batch or was live before. -/
theorem batch_origin (filed : c.Filed) (fits : c.BatchFits queue snapshot operations edges)
    (held : (c.queueBatch queue snapshot operations edges).core.table[id]? = some op) :
    (op ∈ operations ∧ op.id = id) ∨
      (id ∉ operations.map (·.id) ∧
        ∃ earlier, c.table[id]? = some earlier ∧ op = withEdges edges earlier) := by
  by_cases member : id ∈ operations.map (·.id)
  · obtain ⟨one, listed, rfl⟩ := List.mem_map.mp member
    rw [lookup_batch_member fits listed] at held
    cases held
    exact .inl ⟨listed, rfl⟩
  · rw [lookup_batch_other filed member] at held
    obtain ⟨earlier, found, rfl⟩ := Option.map_eq_some_iff.mp held
    exact .inr ⟨member, earlier, found, rfl⟩

/-- A batch goes to the end of the queue, as a graph of its own unless it is empty. -/
theorem batch_graphs (fits : c.BatchFits queue snapshot operations edges) :
    queue.graphs = c.queue.graphs ++
      if operations.map (·.id) = [] then [] else [⟨snapshot, operations.map (·.id)⟩] :=
  (push_ok fits.pushed).2.2

private theorem batch_members (fits : c.BatchFits queue snapshot operations edges) :
    queue.graphs.flatMap (·.members) =
      c.queue.graphs.flatMap (·.members) ++ operations.map (·.id) := by
  rw [batch_graphs fits, List.flatMap_append]
  split
  · rename_i empty
    simp [empty]
  · simp

theorem mem_batch_graphs (fits : c.BatchFits queue snapshot operations edges)
    (queued : graph ∈ queue.graphs) :
    graph ∈ c.queue.graphs ∨ graph = ⟨snapshot, operations.map (·.id)⟩ := by
  rw [batch_graphs fits, List.mem_append] at queued
  rcases queued with old | new
  · exact .inl old
  · split at new
    · cases new
    · exact .inr (List.mem_singleton.mp new)

theorem Filed.batch (filed : c.Filed) (fits : c.BatchFits queue snapshot operations edges) :
    (c.queueBatch queue snapshot operations edges).core.Filed := by
  have isNew : ∀ graph ∈ c.queue.graphs, graph.snapshot < snapshot := by
    intro graph queued
    obtain ⟨latest, known, bound⟩ := filed.accepted graph queued
    exact Nat.lt_of_le_of_lt bound ((push_ok fits.pushed).1 latest known)
  have notListed : ∀ id ∈ c.queue.graphs.flatMap (·.members), id ∉ operations.map (·.id) := by
    intro id old
    obtain ⟨op, held⟩ := mem_table.mp ((filed.listed id).mpr (List.mem_flatMap.mp old))
    exact fits.absent held
  refine ⟨?distinct, ?listed, ?keyed, ?owner, ?snapshot, ?ascending, ?accepted⟩
  case distinct =>
    change (queue.graphs.flatMap (·.members)).Nodup
    rw [batch_members fits, List.nodup_append]
    refine ⟨filed.distinct, fits.distinct, fun id old other new same => ?_⟩
    exact notListed id old (same ▸ new)
  case listed =>
    intro id
    change _ ↔ ∃ graph ∈ queue.graphs, id ∈ graph.members
    rw [← List.mem_flatMap, batch_members fits, List.mem_append, List.mem_flatMap,
      ← filed.listed, mem_table, mem_table]
    constructor
    · rintro ⟨op, held⟩
      rcases batch_origin filed fits held with ⟨member, rfl⟩ | ⟨-, earlier, found, -⟩
      · exact .inr (List.mem_map_of_mem member)
      · exact .inl ⟨earlier, found⟩
    · rintro (⟨earlier, found⟩ | new)
      · exact ⟨_, by rw [lookup_batch_other filed (fits.absent found), found]; rfl⟩
      · obtain ⟨op, member, rfl⟩ := List.mem_map.mp new
        exact ⟨op, lookup_batch_member fits member⟩
  case keyed =>
    intro id op held
    rcases batch_origin filed fits held with ⟨-, named⟩ | ⟨-, earlier, found, rfl⟩
    · exact named
    · exact (withEdges_id ..).trans (filed.keyed id earlier found)
  case owner =>
    intro id op held
    rcases batch_origin filed fits held with ⟨member, -⟩ | ⟨-, earlier, found, rfl⟩
    · exact (fits.stamped op member).1
    · exact (withEdges_pipeline ..).trans (filed.owner id earlier found)
  case snapshot =>
    intro graph queued id member op held
    rcases mem_batch_graphs fits queued with old | rfl
    · rcases batch_origin filed fits held with ⟨new, rfl⟩ | ⟨-, earlier, found, rfl⟩
      · exact absurd (List.mem_map_of_mem new)
          (notListed op.id (List.mem_flatMap.mpr ⟨graph, old, member⟩))
      · exact (withEdges_snapshot ..).trans (filed.snapshot graph old id member earlier found)
    · rcases batch_origin filed fits held with ⟨new, -⟩ | ⟨absent, -⟩
      · exact (fits.stamped op new).2.1
      · exact absurd member absent
  case ascending =>
    change queue.graphs.Pairwise _
    rw [batch_graphs fits, List.pairwise_append]
    refine ⟨filed.ascending, by split <;> simp, fun old queued new member => ?_⟩
    split at member
    · cases member
    · exact List.mem_singleton.mp member ▸ isNew old queued
  case accepted =>
    intro graph queued
    refine ⟨snapshot, (push_ok fits.pushed).2.1, ?_⟩
    rcases mem_batch_graphs fits queued with old | rfl
    · exact Nat.le_of_lt (isNew graph old)
    · exact Nat.le_refl _

end Batch

theorem stamped_ids (c : Core) (snapshot : Nat) (edges : List Edge) (operations : List Operation) :
    (operations.map fun op => withEdges edges (c.stamp snapshot op)).map (·.id) =
      operations.map (·.id) := by
  simp [stamp, Function.comp_def]

theorem append_fits {queue : Queue} {snapshot : Nat} {operations : List Operation}
    {edges : List Edge} (pushed : c.queue.push ⟨snapshot, operations.map (·.id)⟩ = .ok queue)
    (distinct : (operations.map (·.id)).Nodup)
    (fresh : ∀ id ∈ operations.map (·.id), id ∉ c.table)
    (fit : c.EdgesFit (operations.map (·.id)) edges) :
    c.BatchFits queue snapshot (operations.map fun op => withEdges edges (c.stamp snapshot op))
      (outerEdges (operations.map (·.id)) edges) where
  pushed := by rw [stamped_ids]; exact pushed
  distinct := by rw [stamped_ids]; exact distinct
  fresh op member := by
    obtain ⟨given, listed, rfl⟩ := List.mem_map.mp member
    rw [withEdges_id]
    exact fresh given.id (List.mem_map_of_mem listed)
  stamped op member := by
    obtain ⟨given, listed, rfl⟩ := List.mem_map.mp member
    exact ⟨withEdges_pipeline .., withEdges_snapshot .., withEdges_status ..⟩
  outer edge member := by
    obtain ⟨given, starts⟩ := List.mem_filter.mp member
    have outside : edge.operation ∉ operations.map (·.id) := by simpa using starts
    rw [stamped_ids]
    exact ⟨outside, (fit edge given).2 outside⟩

theorem restore_fits {batch : Batch} {queue : Queue}
    (pushed : c.queue.push ⟨batch.snapshot, (c.ownOperations batch).map (·.id)⟩ = .ok queue)
    (distinct : ((c.ownOperations batch).map (·.id)).Nodup)
    (fresh : ∀ id ∈ (c.ownOperations batch).map (·.id), id ∉ c.table) :
    c.BatchFits queue batch.snapshot
      ((c.ownOperations batch).map (c.stamp batch.snapshot)) [] := by
  change c.BatchFits queue batch.snapshot
    ((c.ownOperations batch).map fun op => withEdges [] (c.stamp batch.snapshot op))
    (outerEdges ((c.ownOperations batch).map (·.id)) [])
  exact append_fits pushed distinct fresh nofun

/-- A batch holds what the request asks for. -/
structure BatchAnswers (c : Core) (request : Request) (snapshot : Nat)
    (operations : List Operation) (edges : List Edge) : Prop where
  graph : request.graph? c.names = some ⟨snapshot, operations.map (·.id)⟩
  declared : ∀ id dependency, request.Declares c.names id dependency →
    (∃ op ∈ operations, op.id = id ∧ dependency ∈ op.dependencies) ∨ ⟨id, dependency⟩ ∈ edges
  final : request.finalized? = none

theorem append_answers {snapshot : Nat} {operations : List Operation} {edges : List Edge} :
    c.BatchAnswers (.append snapshot operations edges) snapshot
      (operations.map fun op => withEdges edges (c.stamp snapshot op))
      (outerEdges (operations.map (·.id)) edges) where
  graph := by rw [stamped_ids]; rfl
  declared id dependency := by
    rintro (⟨op, member, rfl, depends⟩ | edge)
    · exact .inl ⟨_, List.mem_map_of_mem member, withEdges_id .., mem_withEdges.mpr (.inl depends)⟩
    · by_cases inside : id ∈ operations.map (·.id)
      · obtain ⟨op, member, rfl⟩ := List.mem_map.mp inside
        exact .inl ⟨_, List.mem_map_of_mem member, withEdges_id ..,
          mem_withEdges.mpr (.inr ⟨_, edge, rfl, rfl⟩)⟩
      · exact .inr (List.mem_filter.mpr ⟨edge, by simpa using inside⟩)
  final := rfl

theorem restore_answers {batch : Batch} :
    c.BatchAnswers (.restore batch) batch.snapshot
      ((c.ownOperations batch).map (c.stamp batch.snapshot)) [] where
  graph := by
    change some _ = some _
    rw [List.map_map]
    rfl
  declared id dependency := by
    rintro ⟨op, member, own, rfl, depends⟩
    exact .inl ⟨_, List.mem_map_of_mem (List.mem_filter.mpr ⟨member, own⟩), rfl, depends⟩
  final := rfl

/-- An admitted request queues a fitting batch, or leaves the graphs and goes on with the same
operations. -/
theorem Admits.cases_batch {now : Instant} {request : Request} {change : Change}
    (admitted : c.Admits now request change) :
    (∃ queue snapshot operations edges, c.BatchFits queue snapshot operations edges ∧
      c.BatchAnswers request snapshot operations edges ∧
      change = c.queueBatch queue snapshot operations edges) ∨
    (change.core.queue = c.queue ∧ c.table.Continues change.core.table ∧
      request.graph? c.names = none ∧
      ∀ id dependency, ¬ request.Declares c.names id dependency) := by
  have kept {id : OperationId} {f : Operation → Operation}
      (continued : ∀ op : Operation, op.Continues (f op)) :
      c.table.Continues (c.table.modify id f) := modify_continues continued
  cases admitted with
  | append pushed distinct fresh fit =>
    exact .inl ⟨_, _, _, _, append_fits pushed distinct fresh fit, append_answers, rfl⟩
  | restore pushed distinct fresh =>
    exact .inl ⟨_, _, _, _, restore_fits pushed distinct fresh, restore_answers, rfl⟩
  | complete =>
    exact .inr ⟨rfl, kept fun op => Operation.continues_of_eq rfl, rfl, fun _ _ => id⟩
  | skip =>
    exact .inr ⟨rfl, kept fun op => Operation.continues_of_eq rfl, rfl, fun _ _ => id⟩
  | reset =>
    exact .inr ⟨rfl, kept fun op => Operation.continues_of_eq rfl, rfl, fun _ _ => id⟩
  | forceActive =>
    exact .inr ⟨rfl, kept fun op => Operation.continues_of_eq rfl, rfl, fun _ _ => id⟩
  | setHold =>
    exact .inr ⟨rfl, kept fun op => Operation.continues_of_eq rfl, rfl, fun _ _ => id⟩
  | setLimit => exact .inr ⟨rfl, .refl _, rfl, fun _ _ => id⟩
  | suspend => exact .inr ⟨rfl, .refl _, rfl, fun _ _ => id⟩
  | resume => exact .inr ⟨rfl, .refl _, rfl, fun _ _ => id⟩
  | dispatch => exact .inr ⟨rfl, .refl _, rfl, fun _ _ => id⟩

theorem Admits.names {now : Instant} {request : Request} {change : Change}
    (admitted : c.Admits now request change) : change.core.names = c.names := by
  cases admitted <;> rfl

theorem Filed.admitted {now : Instant} {request : Request} {change : Change} (filed : c.Filed)
    (admitted : c.Admits now request change) : change.core.Filed := by
  rcases admitted.cases_batch with ⟨_, _, _, _, fits, -, rfl⟩ | ⟨queue, continues, -⟩
  · exact filed.batch fits
  · exact filed.of_continues admitted.names (by rw [queue]) (by rw [queue]) continues

end Core
end CommitPipeline
