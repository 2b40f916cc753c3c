import CommitPipeline.Proofs.BatchDraining
import CommitPipeline.Proofs.PlannedOrder
import CommitPipeline.Proofs.WalkOrder

/-! Every accepted plan runs dry. The checks of a plan give its batches all that a pipeline needs to
get through them: ascending snapshots, identifiers of their own, dependencies among themselves only,
and a walk over the plan that meets every operation after what it is to come after. -/
namespace CommitPipeline

open OperationStore (Accepts)

/-- The owner of some names takes up the same identifiers, whether or not the batches are cut down
to its own operations before. -/
theorem Batch.ids_owned (names : Names) (batches : List Batch) :
    Batch.ids (Batch.owned names batches) names = Batch.ids batches names := by
  induction batches with
  | nil => rfl
  | cons batch rest ih =>
    have split : ids (batch :: rest) names = (batch.graphFor names).members ++ ids rest names :=
      List.flatMap_cons
    rw [split, ← ih, graphFor, owned, List.filterMap_cons]
    cases own : batch.operations.filter fun op => names.owns op.pipeline with
    | nil => rfl
    | cons first others =>
      have whole : ((first :: others).filter fun op => names.owns op.pipeline) =
          first :: others := by
        rw [← own, List.filter_filter]
        simp
      change (graphFor ⟨batch.snapshot, first :: others⟩ names).members ++ _ = _
      rw [graphFor, whole]
      rfl

namespace PlanSource
variable {p : Plan} {fresh : Nat → OperationId} {names : Names} {name : String}
  {id : OperationId}

/-- The identifiers that the batches of a plan bring are those of its names, in plan order. -/
theorem ids_restore (owns : names.owns p.name = true) :
    Batch.ids ((ofPlan fresh p).restore names) names =
      p.operationNames.filterMap (ofPlan fresh p).idOf? := by
  have each (graph : PlannedGraph) : ((batchOf fresh p graph).graphFor names).members =
      (graph.operations.map (·.name)).filterMap (ofPlan fresh p).idOf? := by
    have whole : ((batchOf fresh p graph).operations.filter fun op => names.owns op.pipeline) =
        (batchOf fresh p graph).operations := by
      refine List.filter_eq_self.mpr fun op listed => ?_
      obtain ⟨planned, -, -, same⟩ := mem_batchOf.mp listed
      rw [same]
      exact owns
    rw [Batch.graphFor, whole, batchOf, List.map_filterMap, List.filterMap_map]
    refine List.filterMap_congr fun op _ => ?_
    simp [operation, Operation.new, Function.comp_def]
  rw [restore, Batch.ids_owned, batches_eq, Batch.ids, List.flatMap_map, Plan.operationNames,
    Plan.operations, List.map_flatMap, List.filterMap_flatMap]
  exact List.flatMap_congr fun graph _ => each graph

theorem nodup_ids_restore (accepted : p.Accepted) (apart : Apart fresh p)
    (owns : names.owns p.name = true) :
    (Batch.ids ((ofPlan fresh p).restore names) names).Nodup := by
  rw [ids_restore owns]
  exact accepted.distinct.filterMap fun one other id found same => idOf?_inj apart found same

theorem length_ids_restore (owns : names.owns p.name = true) :
    (Batch.ids ((ofPlan fresh p).restore names) names).length = p.operationCount := by
  have all : ∀ name ∈ p.operationNames, ((ofPlan fresh p).idOf? name).isSome = true := by
    intro name member
    exact Option.isSome_iff_exists.mpr (exists_idOf? member)
  rw [ids_restore owns, List.length_filterMap_eq_countP, List.countP_eq_length.mpr all]
  exact List.length_map ..

/-- The place of an operation in the walk over its plan. -/
def rank (fresh : Nat → OperationId) (p : Plan) (id : OperationId) : Nat :=
  (((ofPlan fresh p).nameOf? id).map p.rank).getD 0

theorem rank_eq (apart : Apart fresh p) (found : (ofPlan fresh p).idOf? name = some id) :
    rank fresh p id = p.rank name := by
  rw [rank, nameOf?_eq_some apart found]
  rfl

/-- The batches of an accepted plan are such as a pipeline gets through. -/
theorem drainable_restore (checked : p.check = .ok p) (apart : Apart fresh p)
    (owns : names.owns p.name = true) :
    Batch.Drainable ((ofPlan fresh p).restore names) names := by
  have accepted := (Plan.accepted_of_check checked).2
  refine ⟨restore_ascending accepted, nodup_ids_restore accepted apart owns,
    closed_restore accepted, ⟨rank fresh p, fun batch member op listed dependency depends => ?_⟩,
    fun batch member op listed => ?_⟩
  · obtain ⟨-, -, graph, inPlan, rfl⟩ := mem_restore.mp member
    obtain ⟨planned, plannedMember, named, same⟩ := mem_batchOf.mp listed
    rw [same, mem_dependencies] at depends
    obtain ⟨name, after, found⟩ := depends
    rw [rank_eq apart found, rank_eq apart named]
    exact Plan.rank_lt (Plan.cycleFault?_of_check checked) accepted.distinct
      (List.mem_flatMap.mpr ⟨graph, inPlan, plannedMember⟩) after
  · obtain ⟨-, -, graph, -, rfl⟩ := mem_restore.mp member
    obtain ⟨planned, -, -, same⟩ := mem_batchOf.mp listed
    rw [same]
    rfl

end PlanSource

section Launch
variable {σ : Type} [OperationStore σ] {p : Plan} {fresh : Nat → OperationId} {names : Names}
  {limit : Nat} {store : σ} {times : List Instant}

/-- A new pipeline takes an accepted plan up without a rejection, whatever its algorithm. It is not
stalled as long as it is only driven on, and has run dry when each operation of the plan has been
finished once. -/
theorem accepted_plan_runs_dry (checked : p.check = .ok p) (apart : PlanSource.Apart fresh p)
    (owns : names.owns p.name = true) (algorithm : Algorithm) (positive : 1 ≤ limit)
    (accepts : Accepts store ∅) (now : Instant)
    (timed : times.length = ((PlanSource.ofPlan fresh p).restore names).length) :
    let launched : Engine σ := ⟨.new names algorithm, store⟩
    let restored := launched.calls
      (Engine.settingOut now limit times ((PlanSource.ofPlan fresh p).restore names))
    (∀ answer ∈ restored.1, ∃ step, answer = .ok step) ∧
      (∀ e, restored.2.DrivenOn e → ∀ t, e.core.stall? t = none) ∧
      ∀ start, restored.2.RunsDry start p.operationCount := by
  have drainable := PlanSource.drainable_restore checked apart owns
  rw [← PlanSource.length_ids_restore owns]
  exact drainable.runsDry algorithm positive accepts now timed

/-- One slot is enough for a plan whose first operation waits for one of the second graph. -/
theorem laterFirst_runs_dry :
    let launched : Engine Memory := ⟨.new (.new "photos" []) .flatGraph, Memory.empty⟩
    let restored := launched.calls (Engine.settingOut .first 1 [.first, .first]
      (laterFirstSource.restore (.new "photos" [])))
    (∀ answer ∈ restored.1, ∃ step, answer = .ok step) ∧
      (∀ e, restored.2.DrivenOn e → ∀ t, e.core.stall? t = none) ∧
      ∀ start, restored.2.RunsDry start 2 := by
  have serves : Memory.empty.Serves ∅ := ⟨Memory.indexed_empty, rfl, nofun⟩
  have owns : (Names.new "photos" []).owns laterFirst.name = true := by decide +kernel
  have timed : [Instant.first, Instant.first].length =
      (laterFirstSource.restore (.new "photos" [])).length := by decide +kernel
  exact accepted_plan_runs_dry laterFirst_checked laterFirst_apart owns .flatGraph (le_refl 1)
    serves.accepts .first timed

end Launch
end CommitPipeline
