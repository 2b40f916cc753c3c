import Mathlib.Data.List.Forall2
import CommitPipeline.Proofs.Finality
import CommitPipeline.Proofs.PlanDraining

/-! What a plan has for a pipeline. Its batches answer to its graphs one for one, whether names are
used before or after they are defined, and names and identifiers lead to each other. A new pipeline
that the plan is for takes all of it up without a rejection, and nothing that an operation waits for
is taken for finished. -/
namespace CommitPipeline

open OperationStore (Accepts)

/-- Batches of one owner are returned whole, or none of them is. -/
theorem Batch.owned_of_owner {names : Names} {owner : String} {batches : List Batch}
    (owned : ∀ batch ∈ batches, ∀ op ∈ batch.operations, op.pipeline = owner) :
    Batch.owned names batches = if names.owns owner = true
      then batches.filter fun batch => !batch.operations.isEmpty else [] := by
  induction batches with
  | nil => simp [Batch.owned]
  | cons batch rest ih =>
    obtain ⟨first, others⟩ := List.forall_mem_cons.mp owned
    have next := ih others
    rw [Batch.owned] at next ⊢
    obtain ⟨snapshot, operations⟩ := batch
    rw [List.filterMap_cons, next, List.filter_cons]
    by_cases owns : names.owns owner = true
    · have whole : (operations.filter fun op => names.owns op.pipeline) = operations :=
        List.filter_eq_self.mpr fun op member => by rw [first op member, owns]
      simp only [if_pos owns, whole]
      cases operations <;> rfl
    · have nothing : (operations.filter fun op => names.owns op.pipeline) = [] :=
        List.filter_eq_nil_iff.mpr fun op member => by rwa [first op member]
      simp only [if_neg owns, nothing]

namespace PlanSource
variable {p : Plan} {fresh : Nat → OperationId} {names : Names} {name : String} {id : OperationId}
  {graph : PlannedGraph} {planned : PlannedOperation}

/-! ### Names and identifiers -/

theorem idOf?_isSome : ((ofPlan fresh p).idOf? name).isSome = true ↔ name ∈ p.operationNames := by
  constructor
  · intro known
    obtain ⟨id, found⟩ := Option.isSome_iff_exists.mp known
    obtain ⟨place, here, -⟩ := mem_ids.mp (mem_ids_of_idOf? found)
    exact List.mem_of_getElem? here
  · exact fun member => Option.isSome_iff_exists.mpr (exists_idOf? member)

/-- Since no name is used twice, a name that an identifier was given for leads to it. -/
theorem idOf?_eq_some (distinct : p.operationNames.Nodup) :
    (ofPlan fresh p).idOf? name = some id ↔ (name, id) ∈ (ofPlan fresh p).ids := by
  refine ⟨mem_ids_of_idOf?, fun listed => ?_⟩
  obtain ⟨place, here, rfl⟩ := mem_ids.mp listed
  obtain ⟨other, found⟩ : ∃ other, (ofPlan fresh p).idOf? name = some other :=
    exists_idOf? (List.mem_of_getElem? here)
  obtain ⟨twin, there, rfl⟩ := mem_ids.mp (mem_ids_of_idOf? found)
  have same : place = twin := by
    obtain ⟨below, at_place⟩ := List.getElem?_eq_some_iff.mp here
    obtain ⟨belowToo, at_twin⟩ := List.getElem?_eq_some_iff.mp there
    exact (distinct.getElem_inj_iff).mp (at_place.trans at_twin.symm)
  rw [found, same]

theorem idOf?_iff_nameOf? (distinct : p.operationNames.Nodup) (apart : Apart fresh p) :
    (ofPlan fresh p).idOf? name = some id ↔ (ofPlan fresh p).nameOf? id = some name := by
  refine ⟨nameOf?_eq_some apart, fun found => (idOf?_eq_some distinct).mpr ?_⟩
  obtain ⟨⟨other, same⟩, first, rfl⟩ := Option.map_eq_some_iff.mp found
  obtain rfl : same = id := by simpa using List.find?_some first
  exact List.mem_of_find?_eq_some first

/-! ### Graphs and batches -/

/-- An operation stands for a planned one. It has the identifier of its name, and waits for the
identifiers of the names that it is to come after, none of which is left out. -/
structure Represents (s : PlanSource) (owner : String) (planned : PlannedOperation)
    (op : Operation) : Prop where
  named : s.idOf? planned.name = some op.id
  resolved : ∀ name ∈ planned.after, ∃ id, s.idOf? name = some id
  waits : ∀ id, id ∈ op.dependencies ↔ ∃ name ∈ planned.after, s.idOf? name = some id
  content : op = { Operation.new op.id with
    pipeline := owner
    priority := planned.priority
    dependencies := op.dependencies
    payload := workerPayload planned }

/-- A batch stands for a graph, operation by operation. -/
structure StandsFor (s : PlanSource) (owner : String) (graph : PlannedGraph) (batch : Batch) :
    Prop where
  snapshot : batch.snapshot = graph.snapshot
  operations : List.Forall₂ (s.Represents owner) graph.operations batch.operations

theorem forall₂_filterMap {α β : Type} {R : α → β → Prop} {f : α → Option β} {l : List α}
    (each : ∀ a ∈ l, ∃ b, f a = some b ∧ R a b) : List.Forall₂ R l (l.filterMap f) := by
  induction l with
  | nil => exact .nil
  | cons a rest ih =>
    obtain ⟨first, others⟩ := List.forall_mem_cons.mp each
    obtain ⟨b, found, related⟩ := first
    rw [List.filterMap_cons_some found]
    exact .cons related (ih others)

/-- Whatever an operation is to come after is an operation of this graph, an earlier or a later
one. -/
theorem resolves (accepted : p.Accepted) (member : graph ∈ p.graphs)
    (listed : planned ∈ graph.operations) (after : name ∈ planned.after) :
    ∃ id, (ofPlan fresh p).idOf? name = some id := by
  obtain ⟨snapshot, known, -⟩ := accepted.known graph member planned listed name after
  obtain ⟨home, homeMember, -, twin, twinListed, rfl⟩ := Plan.snapshotOf?_eq_some known
  exact exists_idOf? (List.mem_map_of_mem (List.mem_flatMap.mpr ⟨home, homeMember, twinListed⟩))

theorem standsFor_batchOf (accepted : p.Accepted) (member : graph ∈ p.graphs) :
    (ofPlan fresh p).StandsFor p.name graph (batchOf fresh p graph) where
  snapshot := rfl
  operations := by
    refine forall₂_filterMap fun planned listed => ?_
    have own : planned.name ∈ p.operationNames :=
      List.mem_map_of_mem (List.mem_flatMap.mpr ⟨graph, member, listed⟩)
    obtain ⟨id, found⟩ : ∃ id, (ofPlan fresh p).idOf? planned.name = some id := exists_idOf? own
    refine ⟨operation p.name (ofPlan fresh p).ids planned id, by rw [found]; rfl, ?_⟩
    have waits (other : OperationId) : other ∈ (operation p.name _ planned id).dependencies ↔ _ :=
      @mem_dependencies p fresh other (.new id) planned
    exact ⟨found, fun name after => resolves accepted member listed after, waits, rfl⟩

theorem standsFor_batches (accepted : p.Accepted) :
    List.Forall₂ ((ofPlan fresh p).StandsFor p.name) p.graphs (ofPlan fresh p).batches := by
  rw [batches_eq, List.forall₂_map_right_iff, List.forall₂_same]
  exact fun graph member => standsFor_batchOf accepted member

/-- A pipeline gets all batches that have operations, or none. -/
theorem restore_eq (fresh : Nat → OperationId) (p : Plan) (names : Names) :
    (ofPlan fresh p).restore names = if names.owns p.name = true
      then (ofPlan fresh p).batches.filter fun batch => !batch.operations.isEmpty else [] := by
  refine Batch.owned_of_owner fun batch member op listed => ?_
  obtain ⟨graph, -, rfl⟩ := List.mem_map.mp member
  obtain ⟨planned, -, -, same⟩ := mem_batchOf.mp listed
  rw [same]
  rfl

end PlanSource

namespace Engine
variable {σ : Type} [OperationStore σ] {e : Engine σ} {names : Names} {limit : Nat}
  {batches : List Batch} {times : List Instant} {id : OperationId}

/-! ### Taking it up -/

/-- Taking up batches makes nothing final. -/
theorem restoreCalls_isFinalized (filed : e.core.Filed) :
    (e.calls (restoreCalls times batches)).2.core.isFinalized id = true ↔
      e.core.isFinalized id = true := by
  induction batches generalizing e times with
  | nil =>
    have noneLeft : restoreCalls times [] = [] := List.zipWith_nil_right
    rw [noneLeft, calls]
  | cons batch rest ih =>
    cases times with
    | nil => exact .rfl
    | cons now later =>
      have answers := e.apply_answers now (.restore batch) filed
      have silent : Entry.finalized? ⟨e.core, .request now (.restore batch),
          (e.apply now (.restore batch)).1⟩ ≠ some id := by
        intro finalized
        obtain ⟨accepted, taken, finalizes⟩ := Option.bind_eq_some_iff.mp finalized
        rw [Entry.accepted?_request taken] at finalizes
        cases finalizes
      exact (ih (answers.filed filed)).trans
        ((answers.isFinalized filed).trans (or_iff_left silent))

theorem Restoring.isFinalized_iff (restoring : e.Restoring names limit batches) :
    e.core.isFinalized id = true ↔ id ∈ e.core.retired := by
  rw [Core.isFinalized_iff]
  refine or_iff_left fun ⟨op, held, final⟩ => ?_
  rw [(restoring.given id op held).1] at final
  cases final

omit [OperationStore σ] in
/-- Batches whose operations wait for each other only leave nothing to retire. -/
theorem retireMissing_closed (closed : Batch.Closed batches e.core.names) :
    e.retireMissing batches = e := by
  have same : (e.core.retireMissing batches).retired = e.core.retired := by
    refine Std.ExtTreeSet.ext_mem fun id => Core.mem_retireMissing.trans (or_iff_left ?_)
    rintro ⟨⟨batch, member, op, own, depends⟩, elsewhere, -⟩
    obtain ⟨home, homeMember, inside⟩ :=
      closed batch member op (List.mem_filter.mp own).1 id depends
    obtain ⟨twin, twinOwn, sameId⟩ := List.mem_map.mp inside
    exact elsewhere home homeMember twin twinOwn sameId
  change ({ e with core := { e.core with retired := (e.core.retireMissing batches).retired } } :
    Engine σ) = e
  rw [same]

end Engine

section Launch
variable {σ : Type} [OperationStore σ] {p : Plan} {fresh : Nat → OperationId} {names : Names}
  {store : σ} {times : List Instant}

/-- A new pipeline that a plan is for takes up what the plan has for it, without a rejection and
with nothing retired. -/
theorem PlanSource.taken_up (accepted : p.Accepted) (apart : PlanSource.Apart fresh p)
    (owns : names.owns p.name = true) (algorithm : Algorithm) (accepts : Accepts store ∅)
    (timed : times.length = ((PlanSource.ofPlan fresh p).restore names).length) :
    let batches := (PlanSource.ofPlan fresh p).restore names
    let launched : Engine σ := ⟨.new names algorithm, store⟩
    let restored := launched.calls (.retireMissing batches :: restoreCalls times batches)
    launched.retireMissing batches = launched ∧
      (∀ answer ∈ restored.1, ∃ step, answer = .ok step) ∧ ∀ id, id ∉ restored.2.core.retired := by
  intro batches launched restored
  have nothing : launched.retireMissing batches = launched :=
    Engine.retireMissing_closed (closed_restore accepted)
  have setOut : launched.Restoring names defaultLimit [] :=
    Engine.restoring_new names algorithm defaultLimit accepts
  have ascending : (([] : List Batch) ++ batches).Pairwise (·.snapshot < ·.snapshot) :=
    restore_ascending accepted
  have distinct : (Batch.ids ([] ++ batches) names).Nodup := nodup_ids_restore accepted apart owns
  obtain ⟨answered, taken, -⟩ := setOut.calls ascending distinct timed
  have made : restored = (.ok .empty :: (launched.calls (restoreCalls times batches)).1,
      (launched.calls (restoreCalls times batches)).2) := by
    change (Except.ok Step.empty ::
      ((launched.retireMissing batches).calls (restoreCalls times batches)).1,
      ((launched.retireMissing batches).calls (restoreCalls times batches)).2) = _
    rw [nothing]
  rw [made]
  refine ⟨nothing, List.forall_mem_cons.mpr ⟨⟨_, rfl⟩, answered⟩, fun id retired => ?_⟩
  have before := (Engine.restoreCalls_isFinalized setOut.filed).mp
    (taken.isFinalized_iff.mpr retired)
  have none : id ∉ launched.core.retired := Std.ExtTreeSet.not_mem_empty
  exact none (setOut.isFinalized_iff.mp before)

/-- The batches of an accepted plan stand for its graphs one by one, with all dependencies resolved,
and names and identifiers lead to each other. A pipeline that the plan is for gets the batches that
have operations, as they are, and any other gets none; a new one takes them up without a rejection,
whatever its algorithm, and retires nothing. -/
theorem accepted_plan_represented (checked : p.check = .ok p) (apart : PlanSource.Apart fresh p)
    (algorithm : Algorithm) (accepts : Accepts store ∅) :
    let source := PlanSource.ofPlan fresh p
    List.Forall₂ (source.StandsFor p.name) p.graphs source.batches ∧
      (∀ name, (source.idOf? name).isSome = true ↔ name ∈ p.operationNames) ∧
      (∀ name id, source.idOf? name = some id ↔ source.nameOf? id = some name) ∧
      (∀ names, source.restore names = if names.owns p.name = true
        then source.batches.filter fun batch => !batch.operations.isEmpty else []) ∧
      ∀ names times, names.owns p.name = true → times.length = (source.restore names).length →
        let batches := source.restore names
        let launched : Engine σ := ⟨.new names algorithm, store⟩
        let restored := launched.calls (.retireMissing batches :: restoreCalls times batches)
        launched.retireMissing batches = launched ∧
          (∀ answer ∈ restored.1, ∃ step, answer = .ok step) ∧
          ∀ id, id ∉ restored.2.core.retired := by
  intro source
  have accepted := (Plan.accepted_of_check checked).2
  exact ⟨PlanSource.standsFor_batches accepted, fun _ => PlanSource.idOf?_isSome,
    fun _ _ => PlanSource.idOf?_iff_nameOf? accepted.distinct apart, PlanSource.restore_eq fresh p,
    fun _ _ owns timed => PlanSource.taken_up accepted apart owns algorithm accepts timed⟩

/-- The first operation of the plan waits for one that is defined later. -/
theorem laterFirst_represented :
    (laterFirstSource.batches.map fun batch => batch.operations.map fun op =>
      op.dependencies.toList) = [[[.ofNat 1]], [[]]] ∧
      laterFirstSource.idOf? "upload" = some (.ofNat 1) ∧
      laterFirstSource.nameOf? (.ofNat 1) = some "upload" ∧
      laterFirstSource.restore (.new "documents" []) = [] ∧
      let batches := laterFirstSource.restore (.new "photos" [])
      let launched : Engine Memory := ⟨.new (.new "photos" []) .flatGraph, Memory.empty⟩
      let restored := launched.calls
        (.retireMissing batches :: restoreCalls [.first, .first] batches)
      (∀ answer ∈ restored.1, ∃ step, answer = .ok step) ∧
        ∀ id, id ∉ restored.2.core.retired := by
  have serves : Memory.empty.Serves ∅ := ⟨Memory.indexed_empty, rfl, nofun⟩
  obtain ⟨-, -, inverse, restores, takes⟩ := accepted_plan_represented laterFirst_checked
    laterFirst_apart .flatGraph serves.accepts
  have found : laterFirstSource.idOf? "upload" = some (.ofNat 1) := by decide +kernel
  have others : (Names.new "documents" []).owns laterFirst.name = false := by decide +kernel
  have owns : (Names.new "photos" []).owns laterFirst.name = true := by decide +kernel
  have timed : [Instant.first, Instant.first].length =
      (laterFirstSource.restore (.new "photos" [])).length := by decide +kernel
  refine ⟨by decide +kernel, found, (inverse _ _).mp found, ?_, (takes _ _ owns timed).2⟩
  exact (restores _).trans (if_neg (Bool.eq_false_iff.mp others))

end Launch
end CommitPipeline
