import Mathlib.Data.List.Sort
import CommitPipeline.Proofs.StoreMirror

/-! What a memory returns to a pipeline that asks for its operations: the unfinished ones of the run
before, a batch for each graph in the order of the queue. -/
namespace CommitPipeline

namespace Batch
variable {names : Names} {batch : Batch} {batches : List Batch}

/-- A batch of a pipeline is what it owns of one of the given batches, if that is anything. -/
theorem mem_owned : batch ∈ owned names batches ↔ batch.operations ≠ [] ∧
    ∃ given ∈ batches, given.snapshot = batch.snapshot ∧
      batch.operations = given.operations.filter fun op => names.owns op.pipeline := by
  rw [owned, List.mem_filterMap]
  constructor
  · rintro ⟨given, member, made⟩
    cases own : given.operations.filter fun op => names.owns op.pipeline with
    | nil => simp [own] at made
    | cons first rest =>
      simp only [own, Option.some.injEq] at made
      subst made
      exact ⟨List.cons_ne_nil first rest, given, member, rfl, own.symm⟩
  · rintro ⟨nonempty, given, member, here, same⟩
    refine ⟨given, member, ?_⟩
    obtain ⟨snapshot, operations⟩ := batch
    rw [← same]
    cases operations with
    | nil => exact absurd rfl nonempty
    | cons first rest => simp only [here]

theorem owned_ascending (names : Names) (ascending : batches.Pairwise (·.snapshot < ·.snapshot)) :
    (owned names batches).Pairwise (·.snapshot < ·.snapshot) := by
  have kept : ((owned names batches).map (·.snapshot)).Sublist (batches.map (·.snapshot)) := by
    clear ascending
    induction batches with
    | nil => exact .slnil
    | cons batch rest ih =>
      rw [owned, List.filterMap_cons]
      cases own : batch.operations.filter fun op => names.owns op.pipeline with
      | nil => exact ih.cons batch.snapshot
      | cons first others => exact ih.cons_cons batch.snapshot
  exact List.pairwise_map.mp ((List.pairwise_map.mpr ascending).sublist kept)

/-- Batches by ascending snapshot are told by which they are. -/
theorem ascending_ext {others : List Batch} (ascending : batches.Pairwise (·.snapshot < ·.snapshot))
    (ascendingToo : others.Pairwise (·.snapshot < ·.snapshot))
    (same : ∀ batch, batch ∈ batches ↔ batch ∈ others) : batches = others := by
  have irrefl : Std.Irrefl fun one other : Batch => one.snapshot < other.snapshot :=
    ⟨fun batch => Nat.lt_irrefl batch.snapshot⟩
  have antisymm : Std.Antisymm fun one other : Batch => one.snapshot < other.snapshot :=
    ⟨fun one other lower higher => absurd lower (Nat.lt_asymm higher)⟩
  exact ascending.eq_of_mem_iff ascendingToo same

end Batch

namespace Core
variable {c : Core} {start m : Memory} {graph : Graph} {next : Names}

/-- What is left to do of a graph. -/
def outstanding (c : Core) (graph : Graph) : Batch :=
  ⟨graph.snapshot, graph.members.filterMap c.unfinished?⟩

private theorem filter_snapshot {graphs : List Graph}
    (ascending : graphs.Pairwise (·.snapshot < ·.snapshot)) (queued : graph ∈ graphs) :
    graphs.filter (·.snapshot = graph.snapshot) = [graph] := by
  induction graphs with
  | nil => cases queued
  | cons first rest ih =>
    obtain ⟨above, ascendingRest⟩ := List.pairwise_cons.mp ascending
    rcases List.mem_cons.mp queued with rfl | later
    · have others : rest.filter (·.snapshot = graph.snapshot) = [] :=
        List.filter_eq_nil_iff.mpr fun other member => by
          have higher := above other member
          simp only [decide_eq_true_eq]
          omega
      rw [List.filter_cons_of_pos (by simp), others]
    · have lower := above graph later
      rw [List.filter_cons_of_neg (by simp only [decide_eq_true_eq]; omega)]
      exact ih ascendingRest later

theorem Filed.outstanding_eq (filed : c.Filed) (queued : graph ∈ c.queue.graphs) :
    c.outstanding graph = ⟨graph.snapshot, c.outstandingAt graph.snapshot⟩ := by
  rw [outstanding, outstandingAt, membersAt, filter_snapshot filed.ascending queued,
    List.flatMap_singleton]

/-- The records of a pipeline are what it has left to do, and nobody else's. -/
theorem Mirrored.owned_records (mirrored : c.Mirrored start m) (filed : c.Filed)
    (owner : next.owns c.names.current = true)
    (empty : ∀ snapshot, ∀ record ∈ start.recordsAt snapshot, record.pipeline ≠ c.names.current)
    (single : ∀ snapshot, ∀ record ∈ m.recordsAt snapshot,
      next.owns record.pipeline = true → record.pipeline = c.names.current) (snapshot : Nat) :
    ((m.recordsAt snapshot).filter fun op => next.owns op.pipeline) = c.outstandingAt snapshot := by
  rw [← mirrored.records]
  refine List.filter_congr fun record member => ?_
  cases found : c.unfinished? record.id with
  | some op =>
    obtain rfl := mirrored.record_eq filed member found
    rw [filed.owner record.id record (unfinished?_eq_some.mp found).1, owner]
    rfl
  | none =>
    obtain ⟨-, initial⟩ := mirrored.others snapshot record member found
    rw [Option.isSome_none, Bool.eq_false_iff]
    intro owned
    exact empty snapshot record initial (single snapshot record member owned)

end Core

namespace Memory
variable {m : Memory} {names : Names} {batch : Batch} {op : Operation} {snapshot : Nat}

theorem mem_batches : batch ∈ m.batches ↔ m.graphs[batch.snapshot]? = some batch.operations := by
  rw [batches, List.mem_map, ← Std.ExtTreeMap.mem_toList_iff_getElem?_eq_some]
  exact ⟨fun ⟨_, member, same⟩ => same ▸ member, fun member => ⟨_, member, rfl⟩⟩

theorem batches_ascending (m : Memory) : m.batches.Pairwise (·.snapshot < ·.snapshot) := by
  rw [batches, List.pairwise_map]
  exact Std.ExtTreeMap.ordered_keys_toList.imp fun lower => Nat.compare_eq_lt.mp lower

theorem exists_batch (member : op ∈ m.recordsAt snapshot) :
    ∃ batch ∈ m.batches, batch.snapshot = snapshot ∧ op ∈ batch.operations := by
  rw [recordsAt] at member
  cases found : m.graphs[snapshot]? with
  | none => simp [found] at member
  | some operations =>
    refine ⟨⟨snapshot, operations⟩, mem_batches.mpr found, rfl, ?_⟩
    rwa [found, Option.getD_some] at member

theorem recordsAt_batch (member : batch ∈ m.batches) :
    m.recordsAt batch.snapshot = batch.operations := by
  rw [recordsAt, mem_batches.mp member, Option.getD_some]

/-- The batches of a pipeline hold its records, snapshot by snapshot. -/
theorem mem_restore : batch ∈ m.restore names ↔ batch.operations ≠ [] ∧
    batch.operations = (m.recordsAt batch.snapshot).filter fun op => names.owns op.pipeline := by
  rw [restore, Batch.mem_owned]
  constructor
  · rintro ⟨nonempty, stored, member, here, same⟩
    exact ⟨nonempty, by rw [same, ← here, recordsAt_batch member]⟩
  · rintro ⟨nonempty, same⟩
    obtain ⟨op, member⟩ := List.exists_mem_of_ne_nil _ nonempty
    rw [same] at member
    obtain ⟨stored, present, here, -⟩ := exists_batch (List.mem_filter.mp member).1
    exact ⟨nonempty, stored, present, here, by rw [same, ← here, recordsAt_batch present]⟩

theorem restore_ascending (m : Memory) (names : Names) :
    (m.restore names).Pairwise (·.snapshot < ·.snapshot) :=
  Batch.owned_ascending names m.batches_ascending

end Memory

namespace Core
variable {c : Core} {m : Memory} {next : Names}

/-- What the memory returns is what is left to do, graph by graph in the order of the queue. -/
theorem Filed.restore_eq (filed : c.Filed) (busy : c.Busy)
    (owned : ∀ snapshot, ((m.recordsAt snapshot).filter fun op => next.owns op.pipeline) =
      c.outstandingAt snapshot) :
    m.restore next = c.queue.graphs.map c.outstanding := by
  refine Batch.ascending_ext (m.restore_ascending next) ?_ fun batch => ?_
  · exact List.pairwise_map.mpr filed.ascending
  · rw [Memory.mem_restore, owned, List.mem_map]
    constructor
    · rintro ⟨nonempty, same⟩
      obtain ⟨op, member⟩ := List.exists_mem_of_ne_nil _ nonempty
      rw [same, mem_outstandingAt filed.keyed, Core.mem_membersAt] at member
      obtain ⟨⟨graph, queued, here, -⟩, -⟩ := member
      refine ⟨graph, queued, ?_⟩
      rw [filed.outstanding_eq queued, here, ← same]
    · rintro ⟨graph, queued, rfl⟩
      obtain ⟨id, member, op, held, unfinished⟩ := busy graph queued
      have left : op ∈ (c.outstanding graph).operations :=
        List.mem_filterMap.mpr ⟨id, member, unfinished?_eq_some.mpr ⟨held, unfinished⟩⟩
      refine ⟨List.ne_nil_of_mem left, ?_⟩
      rw [filed.outstanding_eq queued]

end Core
end CommitPipeline
