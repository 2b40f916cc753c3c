import CommitPipeline.Proofs.Draining

/-! A new pipeline sets out on batches. They are taken up one after the other, with passes in
between that know nothing of the batches to come. If the operations wait for each other only and in
no circle, then, once all are there, whoever drives the pipeline on never finds it stalled, and
finishing what runs brings it to its end. -/
namespace CommitPipeline

open OperationStore (Accepts)

/-- The identifiers that the owner of some names takes up with batches. -/
def Batch.ids (batches : List Batch) (names : Names) : List OperationId :=
  batches.flatMap fun batch => (batch.graphFor names).members

/-! ### Taking up batches -/

namespace Engine
variable {σ : Type} [OperationStore σ] {e : Engine σ} {names : Names} {limit : Nat}
  {done left : List Batch} {batch : Batch} {now : Instant}

/-- A pipeline has taken up some batches, and nothing of them has been finished. The store accepts
what comes next. -/
structure Restoring (e : Engine σ) (names : Names) (limit : Nat) (done : List Batch) : Prop where
  filed : e.core.Filed
  tracked : e.core.Tracked
  named : e.core.names = names
  unsuspended : e.core.suspendCount = 0
  slots : e.core.limit = limit
  latest : ∀ latest, e.core.queue.latest = some latest → ∃ batch ∈ done, latest = batch.snapshot
  waiting : ∀ id, e.core.Unfinished id ↔ id ∈ Batch.ids done names
  given : ∀ (id : OperationId) (op : Operation), e.core.table[id]? = some op →
    op.status.isFinal = false ∧ ∃ batch ∈ done, ∃ given ∈ batch.operations, given.id = id ∧
      op.hold = given.hold ∧ op.dependencies = given.dependencies
  accepts : Accepts e.store {id | e.core.Unfinished id}

theorem restoring_new (names : Names) (algorithm : Algorithm) (limit : Nat) {store : σ}
    (accepts : Accepts store ∅) :
    Restoring ⟨{ Core.new names algorithm with limit }, store⟩ names limit [] where
  filed := (Core.filed_new names algorithm).of_continues rfl rfl rfl (.refl _)
  tracked := ⟨(Core.tracked_new names algorithm).handedOut,
    (Core.tracked_new names algorithm).running, (Core.tracked_new names algorithm).recovered⟩
  named := rfl
  unsuspended := rfl
  slots := rfl
  latest := nofun
  waiting id := by simp [Core.Unfinished, Core.new, Batch.ids]
  given id op held := by simp [Core.new] at held
  accepts := by simpa [Core.Unfinished, Core.new] using accepts

theorem Restoring.finish (restoring : e.Restoring names limit done) (now : Instant)
    (events : EventSet) : (e.finish now events).2.Restoring names limit done := by
  obtain ⟨filed, tracked, named, unsuspended, slots, latest, waiting, given, accepts⟩ := restoring
  have accepts := finish_accepts now events filed accepts
  obtain ⟨operations, dispatches, -, finished⟩ := finish_settled now events filed
  rw [finished] at accepts ⊢
  refine ⟨filed.settle dispatches, tracked.settle filed dispatches,
    (Core.settled_names ..).trans named, (Core.settled_suspendCount ..).trans unsuspended,
    (Core.settled_limit ..).trans slots, fun one known => latest one ?_,
    fun id => (Core.unfinished_settled filed dispatches).trans (waiting id),
    fun id op held => ?_, accepts⟩
  · rwa [Core.settled_queue, Core.pruned_latest] at known
  · rcases Core.startAll_origin filed.prune dispatches held with
      ⟨-, before, found, -, rfl⟩ | ⟨-, found⟩
    · exact ⟨rfl, (given id before (Core.held_of_pruned found)).2⟩
    · exact given id op (Core.held_of_pruned found)

theorem write_batch {known : Set OperationId} (accepts : Accepts e.store known) (queue : Queue)
    (snapshot : Nat) (operations : List Operation) :
    ∃ store, e.write (e.core.queueBatch queue snapshot operations []).write =
        (.ok (), { e with store }) ∧
      Accepts store (known ∪ {id | id ∈ operations.map (·.id)}) := by
  cases operations with
  | nil => exact ⟨e.store, rfl, by simpa using accepts⟩
  | cons op rest =>
    obtain ⟨store, saved, next⟩ := accepts.save snapshot (op :: rest)
    refine ⟨store, ?_, next⟩
    change e.write (some (.save snapshot (op :: rest) [])) = _
    simp only [write, saved]

/-- The next batch is taken up: its snapshot is above those before, and its identifiers are new. -/
theorem Restoring.restore (restoring : e.Restoring names limit done)
    (ascending : (done ++ batch :: left).Pairwise (·.snapshot < ·.snapshot))
    (distinct : (Batch.ids (done ++ batch :: left) names).Nodup) (now : Instant) :
    ∃ (changed : Engine σ) (events : EventSet), changed.Restoring names limit (done ++ [batch]) ∧
      (∃ step, (e.apply now (.restore batch)).1 = .ok step) ∧
      (e.apply now (.restore batch)).2 = (changed.finish now events).2 := by
  obtain ⟨filed, tracked, named, unsuspended, slots, latest, waiting, given, accepts⟩ := restoring
  have members : (e.core.ownOperations batch).map (·.id) = (batch.graphFor names).members := by
    rw [Batch.graphFor, ← named]
    rfl
  rw [Batch.ids, List.flatMap_append, List.flatMap_cons, List.nodup_append, List.nodup_append]
    at distinct
  obtain ⟨-, ⟨ownDistinct, -, -⟩, apart⟩ := distinct
  have fresh : ∀ id ∈ (e.core.ownOperations batch).map (·.id), id ∉ e.core.table := by
    intro id member live
    obtain ⟨op, held⟩ := mem_table.mp live
    have before := (waiting id).mp ⟨op, held, (given id op held).1⟩
    rw [members] at member
    exact apart id before id (List.mem_append_left _ member) rfl
  have above : ∀ one, e.core.queue.latest = some one → one < batch.snapshot := by
    intro one known
    obtain ⟨lower, isDone, rfl⟩ := latest one known
    exact (List.pairwise_append.mp ascending).2.2 lower isDone batch List.mem_cons_self
  obtain ⟨queue, pushed⟩ :=
    Core.push_above ⟨batch.snapshot, (e.core.ownOperations batch).map (·.id)⟩ above
  have nodup : ((e.core.ownOperations batch).map (·.id)).Nodup := by rwa [members]
  -- Nothing else is checked: an operation may wait for one that a later batch brings.
  have decided := Core.restore_admitted now pushed nodup fresh
  have admitted := Core.admits_of_changeFor decided
  have fits := Core.restore_fits pushed nodup fresh
  let operations := (e.core.ownOperations batch).map (e.core.stamp batch.snapshot)
  have ids : operations.map (·.id) = (batch.graphFor names).members := by
    rw [← members, List.map_map]
    rfl
  obtain ⟨store, wrote, next⟩ := write_batch accepts queue batch.snapshot operations
  have unfinished : ∀ id,
      (e.core.queueBatch queue batch.snapshot operations []).core.Unfinished id ↔
        e.core.Unfinished id ∨ id ∈ operations.map (·.id) := by
    intro id
    constructor
    · rintro ⟨op, held, notFinal⟩
      rcases Core.batch_origin filed fits held with ⟨member, rfl⟩ | ⟨-, _, found, rfl⟩
      · exact .inr (List.mem_map_of_mem member)
      · exact .inl ⟨op, found, notFinal⟩
    · rintro (⟨op, held, notFinal⟩ | new)
      · obtain ⟨later, found, -, final⟩ := admitted.forward filed held
        refine ⟨later, found, Bool.eq_false_iff.mpr fun isFinal => ?_⟩
        rcases final.mp isFinal with before | finalized
        · rw [before] at notFinal
          cases notFinal
        · cases finalized
      · obtain ⟨op, member, rfl⟩ := List.mem_map.mp new
        have pending := (fits.stamped op member).2.2
        exact ⟨op, Core.lookup_batch_member fits member, by rw [pending]; rfl⟩
  refine ⟨⟨(e.core.queueBatch queue batch.snapshot operations []).core, store⟩,
    (e.core.queueBatch queue batch.snapshot operations []).events,
    ⟨filed.admitted admitted, tracked.admitted filed admitted, named, unsuspended, slots, ?latest,
      fun id => ?waiting, ?given, ?accepts⟩, ?_⟩
  case latest =>
    intro one known
    have newest : queue.latest = some batch.snapshot := (push_ok pushed).2.1
    have same : batch.snapshot = one := Option.some.inj (newest.symm.trans known)
    exact ⟨batch, by simp, same.symm⟩
  case waiting =>
    rw [unfinished, waiting, ids, Batch.ids, Batch.ids, List.flatMap_append,
      List.flatMap_singleton, List.mem_append]
  case given =>
    intro id op held
    rcases Core.batch_origin filed fits held with ⟨member, rfl⟩ | ⟨-, _, found, rfl⟩
    · obtain ⟨original, own, rfl⟩ := List.mem_map.mp member
      exact ⟨rfl, batch, by simp, original, (List.mem_filter.mp own).1, rfl, rfl, rfl⟩
    · obtain ⟨notFinal, home, isDone, rest⟩ := given id op found
      exact ⟨notFinal, home, List.mem_append_left _ isDone, rest⟩
  case accepts =>
    have same : {id | (e.core.queueBatch queue batch.snapshot operations []).core.Unfinished id} =
        {id | e.core.Unfinished id} ∪ {id | id ∈ operations.map (·.id)} := Set.ext unfinished
    rwa [same]
  · rw [apply_done decided wrote]
    exact ⟨⟨_, rfl⟩, rfl⟩

theorem Restoring.calls {times : List Instant} (restoring : e.Restoring names limit done)
    (ascending : (done ++ left).Pairwise (·.snapshot < ·.snapshot))
    (distinct : (Batch.ids (done ++ left) names).Nodup) (timed : times.length = left.length) :
    (∀ answer ∈ (e.calls (restoreCalls times left)).1, ∃ step, answer = .ok step) ∧
      (e.calls (restoreCalls times left)).2.Restoring names limit (done ++ left) ∧
      (left = [] ∨ ∃ (changed : Engine σ) (now : Instant) (events : EventSet),
        changed.Restoring names limit (done ++ left) ∧
        (e.calls (restoreCalls times left)).2 = (changed.finish now events).2) := by
  induction left generalizing e done times with
  | nil =>
    have none_left : restoreCalls times [] = [] := List.zipWith_nil_right
    rw [none_left, Engine.calls, List.append_nil]
    exact ⟨List.forall_mem_nil _, restoring, .inl rfl⟩
  | cons batch rest ih =>
    obtain ⟨now, later, rfl⟩ := List.exists_cons_of_length_eq_add_one timed
    obtain ⟨changed, events, taken, answered, finished⟩ := restoring.restore ascending distinct now
    have next := taken.finish now events
    rw [← finished] at next
    have split : done ++ batch :: rest = (done ++ [batch]) ++ rest := by simp
    rw [split] at ascending distinct ⊢
    obtain ⟨others, restored, last⟩ := ih next ascending distinct (Nat.succ.inj timed)
    have made : e.calls (restoreCalls (now :: later) (batch :: rest)) =
        ((e.apply now (.restore batch)).1 ::
          ((e.apply now (.restore batch)).2.calls (restoreCalls later rest)).1,
          ((e.apply now (.restore batch)).2.calls (restoreCalls later rest)).2) := rfl
    rw [made]
    refine ⟨List.forall_mem_cons.mpr ⟨answered, others⟩, restored, .inr ?_⟩
    rcases last with rfl | before
    · refine ⟨changed, now, events, by rwa [List.append_nil], ?_⟩
      have none_left : restoreCalls later [] = [] := List.zipWith_nil_right
      rw [none_left, Engine.calls]
      exact finished
    · exact before

/-! ### Setting out -/

theorem Restoring.retireMissing (restoring : e.Restoring names limit done) (batches : List Batch) :
    (e.retireMissing batches).Restoring names limit done where
  filed := restoring.filed.of_continues rfl rfl rfl (.refl _)
  tracked := ⟨restoring.tracked.handedOut, restoring.tracked.running, restoring.tracked.recovered⟩
  named := restoring.named
  unsuspended := restoring.unsuspended
  slots := restoring.slots
  latest := restoring.latest
  waiting := restoring.waiting
  given := restoring.given
  accepts := restoring.accepts

/-- The calls by which a pipeline sets out on some batches. -/
def settingOut (now : Instant) (limit : Nat) (times : List Instant) (batches : List Batch) :
    List Call :=
  .request now (.setLimit limit) :: .retireMissing batches :: restoreCalls times batches

theorem setLimit_new (names : Names) (algorithm : Algorithm) (limit : Nat) {store : σ}
    (accepts : Accepts store ∅) (now : Instant) :
    let launched : Engine σ := ⟨.new names algorithm, store⟩
    (∃ step, (launched.apply now (.setLimit limit)).1 = .ok step) ∧
      (launched.apply now (.setLimit limit)).2.Restoring names limit [] := by
  intro launched
  have fresh := restoring_new names algorithm limit accepts
  by_cases same : limit = defaultLimit
  · have decided : launched.core.changeFor now (.setLimit limit) = .ok none := if_pos same
    rw [apply_idle decided]
    subst same
    exact ⟨⟨_, rfl⟩, fresh⟩
  · have decided : launched.core.changeFor now (.setLimit limit) =
        .ok (some ⟨none, { Core.new names algorithm with limit }, .none⟩) := if_neg same
    have silent : launched.write none = (.ok (), launched) := rfl
    rw [apply_done decided silent]
    exact ⟨⟨_, rfl⟩, fresh.finish now .none⟩

/-- A pipeline that somebody goes on driving without bringing it work. Between two calls the store
may become any other. -/
inductive DrivenOn (start : Engine σ) : Engine σ → Prop where
  | refl : DrivenOn start start
  | drive {e : Engine σ} (driven : DrivenOn start e) (store : σ) (now : Instant)
      {request : Request} (drives : request.Drives) :
      DrivenOn start (Engine.apply ⟨e.core, store⟩ now request).2

end Engine

theorem Core.Answers.busy {c after : Core} {now : Instant} {request : Request}
    {answer : Except Error Step} (answers : c.Answers now request answer after) (filed : c.Filed)
    (busy : c.Busy) : after.Busy := by
  cases answers with
  | rejected | idle => exact busy
  | accepted admitted dispatches => exact (filed.admitted admitted).busy_settled dispatches

/-- An orderly pipeline that is driven on is never found stalled. -/
theorem Engine.DrivenOn.stall?_eq_none {σ : Type} [OperationStore σ] {start e : Engine σ}
    (driven : start.DrivenOn e) (filed : start.core.Filed) (busy : start.core.Busy)
    (orderly : start.core.Orderly) (t : Instant) : e.core.stall? t = none := by
  have kept : e.core.Filed ∧ e.core.Busy ∧ e.core.Orderly := by
    induction driven with
    | refl => exact ⟨filed, busy, orderly⟩
    | @drive e _ store now request drives ih =>
      obtain ⟨filed, busy, orderly⟩ := ih
      have answers := apply_answers ⟨e.core, store⟩ now request filed
      exact ⟨answers.filed filed, answers.busy filed busy,
        orderly.dwindles (answers.dwindles filed drives)⟩
  exact kept.2.2.stall?_eq_none kept.1 kept.2.1 t

theorem Run.calls {σ : Type} [OperationStore σ] {names : Names} {algorithm : Algorithm}
    {history : List Entry} {e : Engine σ} (run : Run names algorithm history e)
    (calls : List Call) : ∃ history, Run names algorithm history (e.calls calls).2 := by
  induction calls generalizing history e with
  | nil => exact ⟨history, run⟩
  | cons call rest ih => exact ih (run.call e.store call)

/-! ### Batches that run dry -/

/-- Batches in the order of their snapshots, with identifiers of their own. Their operations are not
held, and wait for each other only, in no circle. -/
structure Batch.Drainable (batches : List Batch) (names : Names) : Prop where
  ascending : batches.Pairwise (·.snapshot < ·.snapshot)
  distinct : (Batch.ids batches names).Nodup
  closed : Batch.Closed batches names
  ranked : ∃ rank : OperationId → Nat, ∀ batch ∈ batches, ∀ op ∈ batch.operations,
    ∀ dependency ∈ op.dependencies, rank dependency < rank op.id
  unheld : ∀ batch ∈ batches, ∀ op ∈ batch.operations, op.hold = none

section Drainable
variable {σ : Type} [OperationStore σ] {e : Engine σ} {names : Names} {limit : Nat}
  {batches : List Batch}

theorem Engine.Restoring.able (restoring : e.Restoring names limit batches)
    (drainable : Batch.Drainable batches names) (positive : 1 ≤ limit) : e.Able := by
  obtain ⟨rank, falls⟩ := drainable.ranked
  have orderly : e.core.Orderly := by
    refine Core.orderly_of_rank rank ?_ fun _ id op held dependency depends => .inl ?_
    · rintro id other ⟨-, op, held, -, depends⟩
      obtain ⟨-, batch, member, given, listed, rfl, -, same⟩ := restoring.given id op held
      exact falls batch member given listed other (same ▸ depends)
    · obtain ⟨-, batch, member, given, listed, rfl, -, same⟩ := restoring.given id op held
      obtain ⟨home, homeMember, inside⟩ :=
        drainable.closed batch member given listed dependency (same ▸ depends)
      obtain ⟨op, held, -⟩ :=
        (restoring.waiting dependency).mpr (List.mem_flatMap.mpr ⟨home, homeMember, inside⟩)
      exact mem_table.mpr ⟨op, held⟩
  exact ⟨restoring.filed, restoring.tracked, orderly, restoring.unsuspended,
    positive.trans_eq restoring.slots.symm, restoring.accepts⟩

theorem Engine.Restoring.unheld (restoring : e.Restoring names limit batches)
    (drainable : Batch.Drainable batches names) {id : OperationId} {op : Operation}
    (held : e.core.table[id]? = some op) (t : Instant) : op.isHeld t = false := by
  obtain ⟨-, batch, member, given, listed, -, same, -⟩ := restoring.given id op held
  rw [Operation.isHeld, same, drainable.unheld batch member given listed]

theorem Engine.Restoring.count (restoring : e.Restoring names limit batches)
    (drainable : Batch.Drainable batches names) :
    e.core.unfinishedCount = (Batch.ids batches names).length := by
  have same : {id | e.core.Unfinished id} =
      ((Batch.ids batches names).toFinset : Set OperationId) := by
    ext id
    simpa using restoring.waiting id
  rw [Core.unfinishedCount_eq, same, Set.ncard_coe_finset,
    List.toFinset_card_of_nodup drainable.distinct]

/-- A new pipeline takes such batches up without a rejection, is not stalled as long as it is only
driven on, and runs dry. -/
theorem Batch.Drainable.runsDry (drainable : Batch.Drainable batches names)
    (algorithm : Algorithm) (positive : 1 ≤ limit) {store : σ} (accepts : Accepts store ∅)
    (now : Instant) {times : List Instant} (timed : times.length = batches.length) :
    let launched : Engine σ := ⟨.new names algorithm, store⟩
    let restored := launched.calls (Engine.settingOut now limit times batches)
    (∀ answer ∈ restored.1, ∃ step, answer = .ok step) ∧
      (∀ e, restored.2.DrivenOn e → ∀ t, e.core.stall? t = none) ∧
      ∀ start, restored.2.RunsDry start (Batch.ids batches names).length := by
  intro launched restored
  obtain ⟨answered, fresh⟩ := Engine.setLimit_new names algorithm limit accepts now
  have retired := fresh.retireMissing batches
  have ascending : (([] : List Batch) ++ batches).Pairwise (·.snapshot < ·.snapshot) :=
    drainable.ascending
  have distinct : (Batch.ids ([] ++ batches) names).Nodup := drainable.distinct
  obtain ⟨others, restoring, last⟩ := retired.calls ascending distinct timed
  rw [List.nil_append] at restoring last
  have launch : Run names algorithm [] launched := .launch store
  obtain ⟨history, run⟩ := launch.calls (Engine.settingOut now limit times batches)
  have sound := run.sound
  have able := restoring.able drainable positive
  have moving : restored.2.core.queue.graphs = [] ∨ ∃ (id : OperationId) (op : Operation),
      restored.2.core.table[id]? = some op ∧ op.status = .active := by
    rcases last with rfl | ⟨changed, time, events, taken, finished⟩
    · refine .inl (List.eq_nil_iff_forall_not_mem.mpr fun graph queued => ?_)
      obtain ⟨id, -, unfinished⟩ := sound.busy graph queued
      have listed := (restoring.waiting id).mp unfinished
      simp [Batch.ids] at listed
    · have moves := (taken.able drainable positive).finish_moves time events
        fun id op startable => taken.unheld drainable (Core.held_of_pruned startable.held) time
      rw [← finished] at moves
      exact moves
  refine ⟨List.forall_mem_cons.mpr ⟨answered, List.forall_mem_cons.mpr ⟨⟨_, rfl⟩, others⟩⟩,
    fun e driven => driven.stall?_eq_none sound.filed sound.busy able.orderly, fun start => ?_⟩
  have flows : restored.2.Flows start :=
    ⟨able, sound.busy, fun id op held _ => restoring.unheld drainable held start, moving⟩
  rw [← restoring.count drainable]
  exact flows.runsDry

end Drainable

end CommitPipeline
