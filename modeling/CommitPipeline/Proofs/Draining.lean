import Mathlib.Data.Set.Card
import CommitPipeline.Proofs.AcceptingStores
import CommitPipeline.Proofs.Progress

/-! Pipelines that run dry. Where the work is orderly, nothing is held, there is a slot and the
store accepts what it is told, something runs after every pass as long as something is queued. So
whichever of the running operations are finished, in whatever order, the pipeline never gets stuck,
and it is through when each unfinished operation has been finished once. -/
namespace CommitPipeline

namespace Core
variable {c : Core} {id : OperationId} {op : Operation} {now : Instant} {request : Request}
  {operations : List Operation}

/-- Counting operations comes to counting their identifiers. -/
theorem countP_values (table : Table) (p : Operation → Bool) :
    table.values.countP p =
      {id : OperationId | ∃ op, table[id]? = some op ∧ p op = true}.ncard := by
  let entries := table.toList.filter fun entry => p entry.2
  have counted : table.values.countP p = (entries.map (·.1)).length := by
    rw [values_eq_map_toList, List.countP_map, List.countP_eq_length_filter, List.length_map]
    rfl
  have distinct : (entries.map (·.1)).Nodup := by
    refine (List.filter_sublist.map _).nodup ?_
    rw [Std.ExtTreeMap.map_fst_toList_eq_keys]
    exact Std.ExtTreeMap.nodup_keys
  have same : {id : OperationId | ∃ op, table[id]? = some op ∧ p op = true} =
      ((entries.map (·.1)).toFinset : Set OperationId) := by
    ext id
    simp only [Set.mem_ofPred_eq, List.coe_toFinset, List.mem_map, Prod.exists, exists_and_right,
      exists_eq_right, entries, List.mem_filter, Std.ExtTreeMap.mem_toList_iff_getElem?_eq_some]
  rw [counted, same, Set.ncard_coe_finset, List.toFinset_card_of_nodup distinct]

/-- How many operations are not final. -/
def unfinishedCount (c : Core) : Nat :=
  c.table.values.countP fun op => !op.status.isFinal

theorem unfinishedCount_eq (c : Core) : c.unfinishedCount = {id | c.Unfinished id}.ncard := by
  rw [unfinishedCount, countP_values]
  simp only [Bool.not_eq_true']
  rfl

/-- The change that finishes an operation that runs. -/
theorem finishing_admitted (finishes : request.finalized? = some id)
    (held : c.table[id]? = some op) (running : op.status = .active) (now : Instant) :
    ∃ status : Status, status.isFinal = true ∧
      c.changeFor now request = .ok (some (c.finalize id status)) := by
  have read : c.statusOf id = .ok .active := statusOf_ok.mpr ⟨op, held, running⟩
  cases request with
  | complete target =>
    cases finishes
    refine ⟨.completed, rfl, except_bind_ok.mpr ⟨_, except_bind_ok.mpr ⟨_, read, ?_⟩, rfl⟩⟩
    exact if_pos rfl
  | skip target =>
    cases finishes
    refine ⟨.skipped, rfl, except_bind_ok.mpr ⟨_, except_bind_ok.mpr ⟨_, read, ?_⟩, rfl⟩⟩
    exact if_neg Bool.false_ne_true
  | append | restore | reset | forceActive | setHold | setLimit | suspend | resume | dispatch =>
    cases finishes

theorem drives_of_finishes (finishes : request.finalized? = some id) : request.Drives := by
  cases request with
  | append | restore => cases finishes
  | _ => trivial

/-- What is pending after the end of a call was not touched by it. -/
theorem pending_of_settled (filed : c.Filed) (dispatches : c.prune.2.Dispatches now operations)
    (held : (c.settled operations).table[id]? = some op) (pending : op.status = .pending) :
    c.table[id]? = some op := by
  rcases startAll_origin filed.prune dispatches held with ⟨-, _, -, -, rfl⟩ | ⟨-, found⟩
  · cases pending
  · exact held_of_pruned found

end Core

open OperationStore (Accepts)

namespace Engine
variable {σ : Type} [OperationStore σ] {e : Engine σ} {now : Instant} {events : EventSet}

/-- The end of a call, in terms of what the call starts. -/
theorem finish_settled (now : Instant) (events : EventSet) (filed : e.core.Filed) :
    ∃ operations, e.core.prune.2.Dispatches now operations ∧
      (dispatch { e with core := e.core.prune.2 } now).1 = operations ∧
      (e.finish now events).2 =
        ⟨e.core.settled operations, (dispatch { e with core := e.core.prune.2 } now).2.store⟩ := by
  obtain ⟨dispatches, left⟩ := dispatch_dispatches { e with core := e.core.prune.2 } now filed.prune
  refine ⟨_, dispatches, rfl, ?_⟩
  simp only [finish, Core.settled, left]

/-- Whatever the state of the work, a pipeline can go on with it: it is filed and orderly,
operations may be started, and the store accepts it. -/
structure Able (e : Engine σ) : Prop where
  filed : e.core.Filed
  tracked : e.core.Tracked
  orderly : e.core.Orderly
  unsuspended : e.core.suspendCount = 0
  slots : 1 ≤ e.core.limit
  accepts : Accepts e.store {id | e.core.Unfinished id}

/-- What the end of a call starts over an accepting store. -/
theorem pass_accepted (now : Instant) (filed : e.core.Filed)
    (accepts : Accepts e.store {id | e.core.Unfinished id}) :
    (dispatch { e with core := e.core.prune.2 } now).1.map (·.id) =
        (e.core.prune.2.ready now).take e.core.prune.2.freeSlots ∧
      Accepts (dispatch { e with core := e.core.prune.2 } now).2.store
        {id | e.core.Unfinished id} :=
  dispatch_accepted { e with core := e.core.prune.2 } now filed.prune.keyed accepts
    fun _ op held pending => ⟨op, Core.held_of_pruned held, by rw [pending]; rfl⟩

/-- The end of a call keeps an accepting store accepting. -/
theorem finish_accepts (now : Instant) (events : EventSet) (filed : e.core.Filed)
    (accepts : Accepts e.store {id | e.core.Unfinished id}) :
    Accepts (e.finish now events).2.store {id | (e.finish now events).2.core.Unfinished id} := by
  obtain ⟨operations, dispatches, -, finished⟩ := finish_settled now events filed
  have passed := (pass_accepted now filed accepts).2
  rw [finished]
  simpa only [Core.unfinished_settled filed dispatches] using passed

theorem Able.finish (able : e.Able) (now : Instant) (events : EventSet) :
    (e.finish now events).2.Able ∧ (e.finish now events).2.core.Busy := by
  have accepts := finish_accepts now events able.filed able.accepts
  obtain ⟨operations, dispatches, -, finished⟩ := finish_settled now events able.filed
  rw [finished] at accepts ⊢
  refine ⟨⟨able.filed.settle dispatches, able.tracked.settle able.filed dispatches,
    able.orderly.dwindles (Core.settled_dwindles able.filed dispatches), ?_, ?_, accepts⟩,
    able.filed.busy_settled dispatches⟩
  · exact (Core.settled_suspendCount ..).trans able.unsuspended
  · exact able.slots.trans_eq (Core.settled_limit ..).symm

/-- After a pass something runs, unless nothing is queued or all that might be started is held. -/
theorem Able.finish_moves (able : e.Able) (now : Instant) (events : EventSet)
    (unheld : ∀ (id : OperationId) (op : Operation), e.core.prune.2.Startable id op →
      op.isHeld now = false) :
    (e.finish now events).2.core.queue.graphs = [] ∨
      ∃ (id : OperationId) (op : Operation),
        (e.finish now events).2.core.table[id]? = some op ∧ op.status = .active := by
  obtain ⟨operations, dispatches, started, finished⟩ := finish_settled now events able.filed
  have passed := able.finish now events
  rw [finished] at passed ⊢
  -- If nothing runs, the pass started nothing and all slots are free. But then the pass had one for
  -- the operation that only a hold could keep back.
  by_contra stuck
  simp only [not_or, not_exists, not_and] at stuck
  obtain ⟨queued, still⟩ := stuck
  have nothingStarted : operations = [] := by
    refine List.eq_nil_iff_forall_not_mem.mpr fun op member => ?_
    obtain ⟨waiting, -, handedOut⟩ := dispatches.started op member
    refine still op.id op (Core.lookup_started dispatches able.filed.prune member) ?_
    rw [handedOut]
  subst nothingStarted
  have nothingActive : e.core.active = ∅ := by
    refine Std.ExtTreeSet.eq_empty_iff_forall_not_mem.mpr fun id member => ?_
    obtain ⟨op, held, running⟩ :=
      passed.1.tracked.handedOut id ((Core.settled_active e.core []).mpr (.inr member))
    exact still id op held running
  have free : e.core.prune.2.freeSlots = e.core.limit := by
    simp [Core.freeSlots, Core.isSuspended, able.unsuspended, nothingActive]
  obtain ⟨id, op, startable⟩ :=
    passed.1.orderly.exists_startable passed.1.filed passed.2 queued still
  have waiting : e.core.prune.2.Startable id op := ⟨startable.considered, startable.held,
    startable.pending, startable.inCandidateGraph, startable.met⟩
  have ready := waiting.ready (unheld id op waiting)
  have offered := (pass_accepted now able.filed able.accepts).1
  rw [started, free, List.map_nil, eq_comm, List.take_eq_nil_iff] at offered
  rcases offered with noSlot | noneReady
  · have slots := able.slots
    omega
  · rw [noneReady] at ready
    cases ready

/-! ### Finishing what runs -/

/-- So many running operations are finished one after the other, completed or skipped, at instants
that are not before a given one. -/
inductive Drains (start : Instant) (e : Engine σ) : Nat → Engine σ → Prop where
  | refl : Drains start e 0 e
  | finish {count : Nat} {later : Engine σ} (drains : Drains start e count later) {now : Instant}
      (due : start ≤ now) {request : Request} {id : OperationId} {op : Operation}
      (finishes : request.finalized? = some id) (held : later.core.table[id]? = some op)
      (running : op.status = .active) : Drains start e (count + 1) (later.apply now request).2

/-- A pipeline that goes on by itself: it is able to, nothing that waits is held from some instant
on, and something runs unless the queue is empty. -/
structure Flows (start : Instant) (e : Engine σ) : Prop where
  able : e.Able
  busy : e.core.Busy
  unheld : ∀ (id : OperationId) (op : Operation), e.core.table[id]? = some op →
    op.status = .pending → op.isHeld start = false
  moving : e.core.queue.graphs = [] ∨
    ∃ (id : OperationId) (op : Operation), e.core.table[id]? = some op ∧ op.status = .active

theorem isHeld_later {op : Operation} {start now : Instant} (free : op.isHeld start = false)
    (due : start ≤ now) : op.isHeld now = false := by
  refine Bool.eq_false_iff.mpr fun held => ?_
  obtain ⟨release, hold, ahead⟩ := Operation.isHeld_iff.mp held
  rw [Operation.isHeld_iff.mpr ⟨release, hold, Instant.lt_of_le_of_lt due ahead⟩] at free
  cases free

/-- A pass over a pipeline in which nothing is held leaves it flowing. -/
theorem Able.flows {start : Instant} (able : e.Able) (due : start ≤ now)
    (unheld : ∀ (id : OperationId) (op : Operation), e.core.table[id]? = some op →
      op.status = .pending → op.isHeld start = false) (events : EventSet) :
    (e.finish now events).2.Flows start := by
  obtain ⟨passed, busy⟩ := able.finish now events
  refine ⟨passed, busy, fun id op held pending => ?_, able.finish_moves now events ?_⟩
  · obtain ⟨operations, dispatches, -, finished⟩ := finish_settled now events able.filed
    rw [finished] at held
    exact unheld id op (Core.pending_of_settled able.filed dispatches held pending) pending
  · intro id op startable
    exact isHeld_later (unheld id op (Core.held_of_pruned startable.held) startable.pending) due

section Finish
variable {start : Instant} {request : Request} {id : OperationId} {op : Operation}

/-- Over an accepting store an operation that runs can be finished. -/
theorem apply_finishing (accepts : Accepts e.store {id | e.core.Unfinished id})
    (finishes : request.finalized? = some id) (held : e.core.table[id]? = some op)
    (running : op.status = .active) (now : Instant) :
    ∃ (status : Status) (store : σ), status.isFinal = true ∧
      OperationStore.perform e.store (.delete id) = (.ok (), store) ∧
      Accepts store ({id | e.core.Unfinished id} \ {id}) ∧
      e.core.Admits now request (e.core.finalize id status) ∧
      (∃ step, (e.apply now request).1 = .ok step) ∧
      (e.apply now request).2 =
        (Engine.finish ⟨(e.core.finalize id status).core, store⟩ now .queue).2 := by
  have unfinished : e.core.Unfinished id := ⟨op, held, by rw [running]; rfl⟩
  obtain ⟨status, isFinal, decided⟩ := Core.finishing_admitted finishes held running now
  obtain ⟨store, performed, known⟩ := accepts.delete unfinished
  have wrote : e.write (e.core.finalize id status).write = (.ok (), { e with store }) := by
    simp only [Core.finalize, Engine.write, performed]
  refine ⟨status, store, isFinal, performed, known, Core.admits_of_changeFor decided, ?_⟩
  rw [apply_done decided wrote]
  exact ⟨⟨_, rfl⟩, rfl⟩

/-- Finishing an operation that runs is never rejected, leaves the pipeline flowing, and is one
operation less to do. -/
theorem Flows.finish (flows : e.Flows start) (due : start ≤ now)
    (finishes : request.finalized? = some id) (held : e.core.table[id]? = some op)
    (running : op.status = .active) :
    (∃ step, (e.apply now request).1 = .ok step) ∧ (e.apply now request).2.Flows start ∧
      (e.apply now request).2.core.unfinishedCount + 1 = e.core.unfinishedCount := by
  obtain ⟨able, -, unheld, -⟩ := flows
  have unfinished : e.core.Unfinished id := ⟨op, held, by rw [running]; rfl⟩
  obtain ⟨status, store, isFinal, -, accepts, admitted, answered, left⟩ :=
    apply_finishing able.accepts finishes held running now
  have others : ∀ other, (e.core.finalize id status).core.Unfinished other ↔
      e.core.Unfinished other ∧ other ≠ id := by
    intro other
    simp only [Core.Unfinished, Core.finalize, lookup_modify]
    by_cases same : id = other
    · subst same
      simp [held, isFinal]
    · simp [same, Ne.symm same]
  have changed : Able ⟨(e.core.finalize id status).core, store⟩ := by
    refine ⟨able.filed.admitted admitted, able.tracked.admitted able.filed admitted,
      able.orderly.dwindles (admitted.dwindles (Core.drives_of_finishes finishes)),
      able.unsuspended, able.slots, ?_⟩
    have same : {other | (e.core.finalize id status).core.Unfinished other} =
        {other | e.core.Unfinished other} \ {id} := Set.ext others
    rwa [same]
  have stillUnheld : ∀ (other : OperationId) (waiting : Operation),
      (e.core.finalize id status).core.table[other]? = some waiting →
        waiting.status = .pending → waiting.isHeld start = false := by
    intro other waiting found pending
    simp only [Core.finalize, lookup_modify] at found
    split at found
    · obtain ⟨_, -, rfl⟩ := Option.map_eq_some_iff.mp found
      change status = .pending at pending
      rw [pending] at isFinal
      cases isFinal
    · exact unheld other waiting found pending
  rw [left]
  refine ⟨answered, changed.flows due stillUnheld .queue, ?_⟩
  obtain ⟨operations, dispatches, -, finished⟩ := finish_settled now .queue changed.filed
  have same : {other | ((e.core.finalize id status).core.settled operations).Unfinished other} =
      {other | e.core.Unfinished other} \ {id} := by
    ext other
    exact (Core.unfinished_settled changed.filed dispatches).trans (others other)
  rw [finished, Core.unfinishedCount_eq, Core.unfinishedCount_eq, same]
  exact Set.ncard_sdiff_singleton_add_one unfinished (Set.toFinite _)

theorem Flows.drains {count : Nat} {later : Engine σ} (flows : e.Flows start)
    (drains : e.Drains start count later) :
    later.Flows start ∧ later.core.unfinishedCount + count = e.core.unfinishedCount := by
  induction drains with
  | refl => exact ⟨flows, rfl⟩
  | finish _ due finishes held running ih =>
    obtain ⟨flows, counted⟩ := ih
    obtain ⟨-, next, fewer⟩ := flows.finish due finishes held running
    exact ⟨next, by omega⟩

/-- Whichever running operations are finished in whatever order from some instant on: that is never
rejected, something runs until so many have been finished, and then nothing is left. -/
structure RunsDry (start : Instant) (e : Engine σ) (total : Nat) : Prop where
  bounded : ∀ {count : Nat} {later : Engine σ}, e.Drains start count later → count ≤ total
  accepted : ∀ {count : Nat} {later : Engine σ}, e.Drains start count later →
    ∀ (now : Instant) (request : Request) (id : OperationId) (op : Operation), start ≤ now →
      request.finalized? = some id → later.core.table[id]? = some op → op.status = .active →
        ∃ step, (later.apply now request).1 = .ok step
  running : ∀ {count : Nat} {later : Engine σ}, e.Drains start count later → count < total →
    ∃ (id : OperationId) (op : Operation), later.core.table[id]? = some op ∧ op.status = .active
  through : ∀ {later : Engine σ}, e.Drains start total later →
    later.core.queue.graphs = [] ∧ later.core.table = ∅

theorem Flows.runsDry (flows : e.Flows start) : e.RunsDry start e.core.unfinishedCount where
  bounded drains := by
    have counted := (flows.drains drains).2
    omega
  accepted drains _ _ _ _ due finishes held running :=
    ((flows.drains drains).1.finish due finishes held running).1
  running {count later} drains notAll := by
    obtain ⟨flowing, counted⟩ := flows.drains drains
    refine flowing.moving.resolve_left fun noGraphs => ?_
    have someLeft : 0 < later.core.unfinishedCount := by omega
    obtain ⟨op, listed, -⟩ := List.countP_pos_iff.mp someLeft
    obtain ⟨id, held⟩ := mem_values.mp listed
    obtain ⟨graph, queued, -⟩ := flowing.able.filed.graph_of held
    rw [noGraphs] at queued
    cases queued
  through {later} drains := by
    obtain ⟨flowing, counted⟩ := flows.drains drains
    have noneLeft : later.core.unfinishedCount = 0 := by omega
    have noGraphs : later.core.queue.graphs = [] := by
      refine List.eq_nil_iff_forall_not_mem.mpr fun graph queued => ?_
      obtain ⟨id, -, op, held, unfinished⟩ := flowing.busy graph queued
      refine List.countP_eq_zero.mp noneLeft op (mem_values.mpr ⟨id, held⟩) ?_
      rw [unfinished]
      rfl
    refine ⟨noGraphs, Std.ExtTreeMap.ext_getElem? fun id => ?_⟩
    cases held : later.core.table[id]? with
    | none => rfl
    | some op =>
      obtain ⟨graph, queued, -⟩ := flowing.able.filed.graph_of held
      rw [noGraphs] at queued
      cases queued

end Finish

end Engine
end CommitPipeline
