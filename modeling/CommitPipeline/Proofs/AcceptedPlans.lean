import Mathlib.Data.List.Pairwise
import CommitPipeline.Plan.Check
import CommitPipeline.Plan.Source
import CommitPipeline.Proofs.StoredBatches

/-! What the checks of a plan are good for. In an accepted plan snapshots ascend, no name is used
twice, and every dependency is the name of an operation. So its source resolves every name to an
identifier of its own, and its batches wait for nothing outside of them. -/
namespace CommitPipeline

namespace Plan
variable {p : Plan} {name : String} {snapshot : Nat}

/-- A plan without faults. Cycles are left out here. -/
structure Accepted (p : Plan) : Prop where
  ascending : p.graphs.Pairwise (·.snapshot < ·.snapshot)
  distinct : p.operationNames.Nodup
  known : ∀ graph ∈ p.graphs, ∀ op ∈ graph.operations, ∀ dependency ∈ op.after,
    ∃ later, p.snapshotOf? dependency = some later ∧
      ¬ (p.algorithm = .commitGraph ∧ graph.snapshot < later)

theorem orderFault?_eq_none {snapshots : List Nat} :
    orderFault? snapshots = none ↔ snapshots.Pairwise (· < ·) := by
  induction snapshots with
  | nil => simp [orderFault?]
  | cons earlier rest ih =>
    cases rest with
    | nil => simp [orderFault?]
    | cons later others =>
      rw [orderFault?]
      split
      · rename_i below
        refine iff_of_false nofun fun ascending => ?_
        have above := List.rel_of_pairwise_cons ascending List.mem_cons_self
        omega
      · rename_i above
        rw [ih, List.pairwise_cons (a := earlier), iff_and_self]
        intro ascending one member
        rcases List.mem_cons.mp member with rfl | member
        · omega
        · have higher := List.rel_of_pairwise_cons ascending member
          omega

theorem repeatedName?_eq_none {seen names : List String} :
    repeatedName? seen names = none ↔ names.Nodup ∧ ∀ name ∈ names, name ∉ seen := by
  induction names generalizing seen with
  | nil => simp [repeatedName?]
  | cons name rest ih =>
    rw [repeatedName?]
    by_cases known : name ∈ seen
    · simp [known]
    · rw [if_neg (by simpa using known), ih, List.nodup_cons]
      constructor
      · rintro ⟨distinct, unseen⟩
        refine ⟨⟨fun member => unseen name member List.mem_cons_self, distinct⟩, ?_⟩
        rintro other (_ | ⟨_, member⟩)
        · exact known
        · exact fun before => unseen other member (List.mem_cons_of_mem _ before)
      · rintro ⟨⟨absent, distinct⟩, unseen⟩
        refine ⟨distinct, fun other member before => ?_⟩
        rcases List.mem_cons.mp before with rfl | before
        · exact absent member
        · exact unseen other (List.mem_cons_of_mem _ member) before

theorem dependencyFault?_eq_none {seen after : List String} :
    p.dependencyFault? snapshot name seen after = none ↔
      (∀ dependency ∈ after, (∃ later, p.snapshotOf? dependency = some later ∧
        ¬ (p.algorithm = .commitGraph ∧ snapshot < later)) ∧ dependency ≠ name) ∧
      after.Nodup ∧ ∀ dependency ∈ after, dependency ∉ seen := by
  induction after generalizing seen with
  | nil => simp [dependencyFault?]
  | cons dependency rest ih =>
    rw [dependencyFault?, List.forall_mem_cons, List.forall_mem_cons, List.nodup_cons]
    cases found : p.snapshotOf? dependency with
    | none => simp
    | some later =>
      simp only [Option.some.injEq, exists_eq_left']
      by_cases self : dependency = name
      · simp [self]
      by_cases repeated : dependency ∈ seen
      · simp [self, repeated]
      by_cases late : p.algorithm = .commitGraph ∧ snapshot < later
      · simp [self, repeated, late]
      · -- What stands behind is compared with this dependency as with the ones before.
        rw [if_neg self, if_neg (by simpa using repeated), if_neg late, ih]
        simp only [List.mem_cons, not_or]
        constructor
        · rintro ⟨rest, distinct, unseen⟩
          exact ⟨⟨⟨late, self⟩, rest⟩, ⟨fun again => (unseen dependency again).1 rfl, distinct⟩,
            repeated, fun other member => (unseen other member).2⟩
        · rintro ⟨⟨-, rest⟩, ⟨first, distinct⟩, -, unseen⟩
          exact ⟨rest, distinct, fun other member =>
            ⟨fun same => first (same ▸ member), unseen other member⟩⟩

theorem check_eq_ok {checked : Plan} : p.check = .ok checked ↔ checked = p ∧ p.fault? = none := by
  rw [check]
  cases p.fault? <;> simp [eq_comm]

theorem accepted_of_check {checked : Plan} (accepted : p.check = .ok checked) :
    checked = p ∧ p.Accepted := by
  obtain ⟨same, fine⟩ := check_eq_ok.mp accepted
  simp only [fault?, Option.orElse_eq_none, Option.map_eq_none_iff] at fine
  obtain ⟨-, -, ordered, named, known, -⟩ := fine
  refine ⟨same, List.pairwise_map.mp (orderFault?_eq_none.mp ordered),
    (repeatedName?_eq_none.mp named).1, fun graph member op listed dependency waits => ?_⟩
  have checkedAll := List.findSome?_eq_none_iff.mp known graph member
  have fine := dependencyFault?_eq_none.mp (List.findSome?_eq_none_iff.mp checkedAll op listed)
  exact (fine.1 dependency waits).1

theorem snapshotOf?_eq_some (found : p.snapshotOf? name = some snapshot) :
    ∃ graph ∈ p.graphs, graph.snapshot = snapshot ∧ ∃ op ∈ graph.operations, op.name = name := by
  rw [snapshotOf?, Option.map_eq_some_iff] at found
  obtain ⟨graph, first, rfl⟩ := found
  have has := List.find?_some first
  rw [List.any_eq_true] at has
  obtain ⟨op, listed, named⟩ := has
  exact ⟨graph, List.mem_of_find?_eq_some first, rfl, op, listed, of_decide_eq_true named⟩

/-- Since no name is used twice, the graph of a name is the one that lists it. -/
theorem snapshotOf?_eq (distinct : p.operationNames.Nodup) {graph : PlannedGraph}
    {op : PlannedOperation} (member : graph ∈ p.graphs) (listed : op ∈ graph.operations) :
    p.snapshotOf? op.name = some graph.snapshot := by
  have somewhere : (p.snapshotOf? op.name).isSome = true := by
    rw [snapshotOf?, Option.isSome_map, List.find?_isSome]
    exact ⟨graph, member, List.any_eq_true.mpr ⟨op, listed, decide_eq_true rfl⟩⟩
  obtain ⟨snapshot, found⟩ := Option.isSome_iff_exists.mp somewhere
  obtain ⟨other, otherMember, rfl, twin, twinListed, named⟩ := snapshotOf?_eq_some found
  have same : other = graph := by
    by_contra different
    rw [operationNames, operations, List.map_flatMap, List.nodup_flatMap] at distinct
    have symm : Std.Symm (Function.onFun List.Disjoint fun graph : PlannedGraph =>
        graph.operations.map (·.name)) := ⟨fun _ _ disjoint _ here there => disjoint there here⟩
    have disjoint := distinct.2.forall otherMember member different
    exact disjoint (List.mem_map_of_mem twinListed) (named ▸ List.mem_map_of_mem listed)
  rw [found, same]

theorem Accepted.snapshotOf?_eq (accepted : p.Accepted) {graph : PlannedGraph}
    {op : PlannedOperation} (member : graph ∈ p.graphs) (listed : op ∈ graph.operations) :
    p.snapshotOf? op.name = some graph.snapshot :=
  Plan.snapshotOf?_eq accepted.distinct member listed

end Plan

namespace PlanSource
variable {p : Plan} {fresh : Nat → OperationId} {names : Names} {name other : String}
  {id : OperationId} {graph : PlannedGraph} {batch : Batch} {given : Operation}

/-- The identifiers of a plan are different from each other. -/
def Apart (fresh : Nat → OperationId) (p : Plan) : Prop :=
  ∀ i < p.operationCount, ∀ j < p.operationCount, fresh i = fresh j → i = j

theorem mem_ids : (name, id) ∈ (ofPlan fresh p).ids ↔
    ∃ place, p.operationNames[place]? = some name ∧ fresh place = id := by
  constructor
  · intro member
    obtain ⟨⟨one, place⟩, listed, same⟩ := List.mem_map.mp member
    cases same
    exact ⟨place, List.mem_zipIdx_iff_getElem?.mp listed, rfl⟩
  · rintro ⟨place, here, rfl⟩
    exact List.mem_map.mpr ⟨(name, place), List.mem_zipIdx_iff_getElem?.mpr here, rfl⟩

/-- Two names never share an identifier. -/
theorem ids_inj (apart : Apart fresh p) (one : (name, id) ∈ (ofPlan fresh p).ids)
    (two : (other, id) ∈ (ofPlan fresh p).ids) : name = other := by
  obtain ⟨i, here, rfl⟩ := mem_ids.mp one
  obtain ⟨j, there, same⟩ := mem_ids.mp two
  have count : p.operationNames.length = p.operationCount := List.length_map ..
  obtain ⟨below, -⟩ := List.getElem?_eq_some_iff.mp here
  obtain ⟨belowToo, -⟩ := List.getElem?_eq_some_iff.mp there
  have places : j = i := apart j (count ▸ belowToo) i (count ▸ below) same
  rw [places, here] at there
  exact Option.some.inj there

theorem mem_ids_of_idOf? (found : (ofPlan fresh p).idOf? name = some id) :
    (name, id) ∈ (ofPlan fresh p).ids := by
  obtain ⟨before, behind, split, -⟩ := List.lookup_eq_some_iff.mp found
  rw [split]
  exact List.mem_append_right before List.mem_cons_self

theorem exists_idOf? (member : name ∈ p.operationNames) :
    ∃ id, (ofPlan fresh p).idOf? name = some id := by
  obtain ⟨place, here⟩ := List.mem_iff_getElem?.mp member
  have listed : (name, fresh place) ∈ (ofPlan fresh p).ids := mem_ids.mpr ⟨place, here, rfl⟩
  rw [← Option.isSome_iff_exists, idOf?, List.lookup_isSome_iff]
  exact ⟨_, listed, beq_self_eq_true name⟩

theorem idOf?_inj (apart : Apart fresh p) (one : (ofPlan fresh p).idOf? name = some id)
    (two : (ofPlan fresh p).idOf? other = some id) : name = other :=
  ids_inj apart (mem_ids_of_idOf? one) (mem_ids_of_idOf? two)

/-- Names lead to identifiers and back. -/
theorem nameOf?_eq_some (apart : Apart fresh p) (found : (ofPlan fresh p).idOf? name = some id) :
    (ofPlan fresh p).nameOf? id = some name := by
  have listed := mem_ids_of_idOf? found
  rw [nameOf?]
  cases first : (ofPlan fresh p).ids.find? (·.2 = id) with
  | none => simpa using List.find?_eq_none.mp first _ listed
  | some pair =>
    obtain ⟨other, same⟩ := pair
    obtain rfl : same = id := by simpa using List.find?_some first
    exact congrArg some (ids_inj apart (List.mem_of_find?_eq_some first) listed)

/-- The batch of a graph of the plan. -/
def batchOf (fresh : Nat → OperationId) (p : Plan) (graph : PlannedGraph) : Batch :=
  ⟨graph.snapshot, graph.operations.filterMap fun op =>
    ((ofPlan fresh p).idOf? op.name).map (operation p.name (ofPlan fresh p).ids op)⟩

theorem batches_eq : (ofPlan fresh p).batches = p.graphs.map (batchOf fresh p) := rfl

theorem mem_batchOf : given ∈ (batchOf fresh p graph).operations ↔
    ∃ planned ∈ graph.operations, (ofPlan fresh p).idOf? planned.name = some given.id ∧
      given = operation p.name (ofPlan fresh p).ids planned given.id := by
  rw [batchOf, List.mem_filterMap]
  refine exists_congr fun planned => and_congr_right fun _ => ?_
  rw [Option.map_eq_some_iff]
  constructor
  · rintro ⟨id, found, rfl⟩
    exact ⟨found, rfl⟩
  · rintro ⟨found, same⟩
    exact ⟨given.id, found, same.symm⟩

theorem mem_dependencies {planned : PlannedOperation} :
    id ∈ (operation p.name (ofPlan fresh p).ids planned given.id).dependencies ↔
      ∃ dependency ∈ planned.after, (ofPlan fresh p).idOf? dependency = some id := by
  rw [operation, Std.ExtTreeSet.mem_iff_contains, Std.ExtTreeSet.contains_ofList,
    List.contains_iff_mem, List.mem_filterMap]
  rfl

/-- A pipeline gets the batches of all graphs that have operations, or nothing. -/
theorem mem_restore : batch ∈ (ofPlan fresh p).restore names ↔
    batch.operations ≠ [] ∧ names.owns p.name = true ∧ ∃ graph ∈ p.graphs,
      batch = batchOf fresh p graph := by
  have owner {graph : PlannedGraph} : ∀ op ∈ (batchOf fresh p graph).operations,
      op.pipeline = p.name := by
    intro op member
    obtain ⟨planned, -, -, same⟩ := mem_batchOf.mp member
    rw [same]
    rfl
  rw [restore, Batch.mem_owned, batches_eq, and_congr_right_iff]
  intro nonempty
  constructor
  · rintro ⟨given, member, here, same⟩
    obtain ⟨graph, planned, rfl⟩ := List.mem_map.mp member
    obtain ⟨op, inside⟩ := List.exists_mem_of_ne_nil _ nonempty
    rw [same] at inside
    obtain ⟨listed, owned⟩ := List.mem_filter.mp inside
    have owns : names.owns p.name = true := owner op listed ▸ owned
    have whole : ((batchOf fresh p graph).operations.filter fun op => names.owns op.pipeline) =
        (batchOf fresh p graph).operations :=
      List.filter_eq_self.mpr fun op listed => by rw [owner op listed, owns]
    refine ⟨owns, graph, planned, ?_⟩
    obtain ⟨snapshot, operations⟩ := batch
    rw [whole] at same
    simp only at here same
    rw [← here, same]
  · rintro ⟨owns, graph, planned, rfl⟩
    refine ⟨_, List.mem_map_of_mem planned, rfl, (List.filter_eq_self.mpr fun op listed => ?_).symm⟩
    rw [owner op listed, owns]

theorem restore_ascending (accepted : p.Accepted) :
    ((ofPlan fresh p).restore names).Pairwise (·.snapshot < ·.snapshot) := by
  refine Batch.owned_ascending names ?_
  rw [batches_eq, List.pairwise_map]
  exact accepted.ascending

end PlanSource
end CommitPipeline
