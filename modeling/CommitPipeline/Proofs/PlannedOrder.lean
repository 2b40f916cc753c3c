import CommitPipeline.CommandLine.Run
import CommitPipeline.Proofs.AcceptedPlans
import CommitPipeline.Proofs.Replay

/-! Whether a replay of a plan keeps the order that the plan asks for. It does when it runs under
the algorithm that the plan was checked for. Under another one, given on the command line, graphs
may run one at a time although operations wait for later graphs, and those are started too early. -/
namespace CommitPipeline

namespace PlanSource
variable {p : Plan} {fresh : Nat → OperationId} {names : Names} {graph : PlannedGraph}
  {id : OperationId}

/-- The graph of a batch lists the operations that the plan lists. -/
theorem mem_graphFor (owns : names.owns p.name = true) :
    id ∈ ((batchOf fresh p graph).graphFor names).members ↔
      ∃ planned ∈ graph.operations, (ofPlan fresh p).idOf? planned.name = some id := by
  rw [Batch.graphFor, List.mem_map]
  constructor
  · rintro ⟨given, own, rfl⟩
    obtain ⟨planned, listed, found, -⟩ := mem_batchOf.mp (List.mem_filter.mp own).1
    exact ⟨planned, listed, found⟩
  · rintro ⟨planned, listed, found⟩
    refine ⟨operation p.name (ofPlan fresh p).ids planned id, List.mem_filter.mpr ⟨?_, owns⟩, rfl⟩
    exact mem_batchOf.mpr ⟨planned, listed, found, rfl⟩

theorem batchOf_mem_restore (owns : names.owns p.name = true) (planned : graph ∈ p.graphs)
    (member : id ∈ ((batchOf fresh p graph).graphFor names).members) :
    batchOf fresh p graph ∈ (ofPlan fresh p).restore names := by
  obtain ⟨given, own, -⟩ := List.mem_map.mp member
  have listed := (List.mem_filter.mp own).1
  exact mem_restore.mpr ⟨List.ne_nil_of_mem listed, owns, graph, planned, rfl⟩

/-- The batches of an accepted plan wait for nothing outside of them. -/
theorem closed_restore (accepted : p.Accepted) :
    Batch.Closed ((ofPlan fresh p).restore names) names := by
  intro batch member op listed dependency depends
  obtain ⟨-, owns, graph, planned, rfl⟩ := mem_restore.mp member
  obtain ⟨plannedOp, plannedMember, -, same⟩ := mem_batchOf.mp listed
  rw [same, mem_dependencies] at depends
  obtain ⟨name, after, found⟩ := depends
  obtain ⟨snapshot, known, -⟩ := accepted.known graph planned plannedOp plannedMember name after
  obtain ⟨home, homeMember, -, twin, twinListed, rfl⟩ := Plan.snapshotOf?_eq_some known
  have inside : dependency ∈ ((batchOf fresh p home).graphFor names).members :=
    (mem_graphFor owns).mpr ⟨twin, twinListed, found⟩
  exact ⟨_, batchOf_mem_restore owns homeMember inside, inside⟩

end PlanSource

/-- Nothing keeps an operation of a plan from being started before a dependency: graphs run one at a
time, and the dependency is in a later graph, which only other plans than those for this algorithm
may ask for. -/
def Plan.Overlooks (p : Plan) (algorithm : Algorithm) (name dependency : String) : Prop :=
  algorithm = .commitGraph ∧ p.algorithm = .flatGraph ∧ ∃ earlier later,
    p.snapshotOf? name = some earlier ∧ p.snapshotOf? dependency = some later ∧ earlier < later

section Replay
variable {σ : Type} [OperationStore σ] {p : Plan} {fresh : Nat → OperationId} {names : Names}
  {algorithm : Algorithm} {left : List Batch} {history : List Entry} {e : Engine σ}

/-- Whatever a replay of an accepted plan starts is an operation of the plan, and all that it is to
come after has been finalized, but for what the algorithm overlooks. -/
theorem replay_in_planned_order (checked : p.check = .ok p) (apart : PlanSource.Apart fresh p)
    (replay : Replay names algorithm ((PlanSource.ofPlan fresh p).restore names) left history e) :
    ∀ entry, history.head? = some entry → ∀ op ∈ entry.dispatched,
      ∃ planned ∈ p.operations,
        (PlanSource.ofPlan fresh p).idOf? planned.name = some op.id ∧
        ∀ dependency ∈ planned.after, p.Overlooks algorithm planned.name dependency ∨
          ∃ id, (PlanSource.ofPlan fresh p).idOf? dependency = some id ∧
            FinalizedIn history id := by
  intro entry latest op started
  obtain ⟨earlier, rfl⟩ := List.head?_eq_some_iff.mp latest
  have accepted := (Plan.accepted_of_check checked).2
  obtain ⟨batch, member, given, listed, named, finished⟩ := replay.dispatched
    (PlanSource.restore_ascending accepted) (PlanSource.closed_restore accepted) started
  obtain ⟨-, owns, graph, inPlan, rfl⟩ := PlanSource.mem_restore.mp member
  obtain ⟨planned, plannedMember, found, same⟩ := PlanSource.mem_batchOf.mp listed
  have inOperations : planned ∈ p.operations := List.mem_flatMap.mpr ⟨graph, inPlan, plannedMember⟩
  refine ⟨planned, inOperations, named ▸ found, fun dependency after => ?_⟩
  obtain ⟨snapshot, known, allowed⟩ :=
    accepted.known graph inPlan planned plannedMember dependency after
  obtain ⟨home, homeMember, rfl, twin, twinListed, rfl⟩ := Plan.snapshotOf?_eq_some known
  have nameKnown : twin.name ∈ p.operationNames :=
    List.mem_map_of_mem (List.mem_flatMap.mpr ⟨home, homeMember, twinListed⟩)
  obtain ⟨id, idFound⟩ := PlanSource.exists_idOf? nameKnown
  have depends : id ∈ given.dependencies := by
    rw [same]
    exact PlanSource.mem_dependencies.mpr ⟨twin.name, after, idFound⟩
  rcases finished id depends with final | ⟨inTurn, later, laterMember, higher, inside⟩
  · exact .inr ⟨id, idFound, final⟩
  · obtain ⟨-, -, place, placeMember, rfl⟩ := PlanSource.mem_restore.mp laterMember
    obtain ⟨other, otherListed, otherFound⟩ := (PlanSource.mem_graphFor owns).mp inside
    have sameName : other.name = twin.name := PlanSource.idOf?_inj apart otherFound idFound
    have sameSnapshot : place.snapshot = home.snapshot := by
      have snapshot := accepted.snapshotOf?_eq placeMember otherListed
      rw [sameName, known] at snapshot
      exact (Option.some.inj snapshot).symm
    have above : graph.snapshot < home.snapshot := sameSnapshot ▸ higher
    refine .inl ⟨inTurn, ?_, graph.snapshot, home.snapshot,
      accepted.snapshotOf?_eq inPlan plannedMember, known, above⟩
    cases own : p.algorithm with
    | flatGraph => rfl
    | commitGraph => exact (allowed ⟨own, above⟩).elim

/-- A plan for all graphs at once, whose first operation waits for one of the second graph. -/
def laterFirst : Plan where
  name := "photos"
  algorithm := .flatGraph
  limit := 8
  previousNames := []
  worker := .default
  graphs := [⟨1, [⟨"publish", 0, ["upload"], .null⟩]⟩, ⟨2, [⟨"upload", 0, [], .null⟩]⟩]

theorem laterFirst_checked : laterFirst.check = .ok laterFirst := by
  have fine : laterFirst.fault? = none := by decide +kernel
  rw [Plan.check, fine]

theorem laterFirst_apart : PlanSource.Apart OperationId.ofNat laterFirst := by
  unfold PlanSource.Apart
  decide +kernel

/-- The source of the plan, with its operations numbered in plan order. -/
def laterFirstSource : PlanSource := .ofPlan .ofNat laterFirst

theorem laterFirst_in_planned_order :
    let replay := replayOf (.new "photos" []) .flatGraph Memory.empty
      (laterFirstSource.restore (.new "photos" []))
      [.drive .first (.complete (.ofNat 1)), .restore .first, .restore .first, .retire]
    (replay.2.1.head?.map fun entry => entry.dispatched.map (·.id)) = some [.ofNat 0] ∧
      laterFirstSource.nameOf? (.ofNat 0) = some "publish" ∧
      ∀ entry, replay.2.1.head? = some entry → ∀ op ∈ entry.dispatched,
        ∃ planned ∈ laterFirst.operations, laterFirstSource.idOf? planned.name = some op.id ∧
          ∀ dependency ∈ planned.after, laterFirst.Overlooks .flatGraph planned.name dependency ∨
            ∃ id, laterFirstSource.idOf? dependency = some id ∧ FinalizedIn replay.2.1 id := by
  have replay := Replay.of_turns (.new "photos" []) .flatGraph Memory.empty
    (laterFirstSource.restore (.new "photos" []))
    [.drive .first (.complete (.ofNat 1)), .restore .first, .restore .first, .retire]
    (by simp [Request.Drives])
  exact ⟨by decide +kernel, by decide +kernel,
    replay_in_planned_order laterFirst_checked laterFirst_apart replay⟩

/-- Started with another algorithm on the command line, the first operation does not wait. -/
theorem override_disorders :
    let settings := Arguments.settings { Arguments.none with algorithm := some .commitGraph }
      laterFirst
    let replay := replayOf settings.names settings.algorithm Memory.empty
      (laterFirstSource.restore settings.names) [.restore .first, .retire]
    laterFirst.check = .ok laterFirst ∧ PlanSource.Apart OperationId.ofNat laterFirst ∧
      Replay settings.names settings.algorithm (laterFirstSource.restore settings.names)
        replay.1 replay.2.1 replay.2.2 ∧
      ∃ entry, replay.2.1.head? = some entry ∧ ∃ op ∈ entry.dispatched,
        ∃ planned ∈ laterFirst.operations, laterFirstSource.idOf? planned.name = some op.id ∧
          ∃ dependency ∈ planned.after, ¬ ∃ id, laterFirstSource.idOf? dependency = some id ∧
            FinalizedIn replay.2.1 id := by
  intro settings replay
  have isReplay := Replay.of_turns settings.names settings.algorithm Memory.empty
    (laterFirstSource.restore settings.names) [.restore .first, .retire] (by simp)
  have started : (replay.2.1.head?.map fun entry => entry.dispatched.map (·.id)) =
      some [.ofNat 0] := by decide +kernel
  have nothingFinal : ∀ entry ∈ replay.2.1, entry.finalized? = none := by decide +kernel
  obtain ⟨entry, latest, ids⟩ := Option.map_eq_some_iff.mp started
  obtain ⟨op, member, named⟩ := List.mem_map.mp (ids ▸ List.mem_cons_self : OperationId.ofNat 0 ∈ _)
  refine ⟨laterFirst_checked, laterFirst_apart, isReplay, entry, latest, op, member,
    ⟨"publish", 0, ["upload"], .null⟩, List.mem_cons_self, ?_, "upload", List.mem_cons_self, ?_⟩
  · rw [named]
    decide +kernel
  · rintro ⟨id, -, one, inHistory, final⟩
    rw [nothingFinal one inHistory] at final
    cases final

end Replay
end CommitPipeline
