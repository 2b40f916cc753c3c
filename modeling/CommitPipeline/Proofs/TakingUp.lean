import CommitPipeline.Proofs.StoredBatches

/-! A suspended pipeline takes up what an earlier one had left to do, one graph after the other. No
batch is rejected, since snapshots ascend and identifiers are distinct as they were in the earlier
queue, and the records of others stay where they are. -/
namespace CommitPipeline

/-- The operation as a later pipeline takes it up. -/
def Operation.handedTo (op : Operation) (names : Names) : Operation :=
  { op with pipeline := names.current, status := .pending }

/-- The records of a snapshot that belong to others than the owner of some names, in their order. -/
def Memory.othersAt (m : Memory) (names : Names) (snapshot : Nat) : List Operation :=
  (m.recordsAt snapshot).filter fun op => !names.owns op.pipeline

/-- Makes calls in their order and returns the answers. -/
def Engine.calls {σ : Type} [OperationStore σ] (e : Engine σ) :
    List Call → List (Except Error Step) × Engine σ
  | [] => ([], e)
  | call :: rest =>
    let (answer, e) := e.call call
    let (answers, e) := e.calls rest
    (answer :: answers, e)

/-- The calls by which a pipeline takes batches up, each at its own time. -/
def restoreCalls (times : List Instant) (batches : List Batch) : List Call :=
  List.zipWith (fun now batch => .request now (.restore batch)) times batches

namespace Core
variable {c : Core} {id : OperationId} {graph : Graph} {now : Instant}

/-- A graph with the members that are left to do. -/
def remaining (c : Core) (graph : Graph) : Graph :=
  { graph with members := graph.members.filter fun id => (c.unfinished? id).isSome }

theorem unfinished_iff : c.Unfinished id ↔ (c.unfinished? id).isSome = true := by
  rw [Option.isSome_iff_exists]
  exact exists_congr fun op => unfinished?_eq_some.symm

/-- Where every graph has an unfinished member none is taken out. -/
theorem prune_eq_of_busy (busy : c.Busy) : c.prune = (false, c) := by
  have waiting : ∀ graph ∈ c.queue.graphs, c.isDrained graph = false := by
    intro graph queued
    obtain ⟨id, member, op, held, unfinished⟩ := busy graph queued
    rw [Bool.eq_false_iff, Ne, isDrained_iff]
    intro drained
    rw [drained id member op held] at unfinished
    cases unfinished
  have gone : c.queue.graphs.filter c.isDrained = [] :=
    List.filter_eq_nil_iff.mpr fun graph queued => by simp [waiting graph queued]
  have kept : c.queue.graphs.filter (fun graph => !c.isDrained graph) = c.queue.graphs :=
    List.filter_eq_self.mpr fun graph queued => by simp [waiting graph queued]
  have others : c.queue.graphs.filter (not ∘ c.isDrained) = c.queue.graphs := kept
  simp only [prune, Queue.prune, List.partition_eq_filter_filter, gone, others, List.isEmpty_nil,
    ↓reduceIte, List.flatMap_nil, List.foldl_nil, Bool.not_true]

theorem prune_of_busy (busy : c.Busy) : c.prune.2 = c := congrArg Prod.snd (prune_eq_of_busy busy)

theorem restore_admitted {batch : Batch} {queue : Queue} (now : Instant)
    (pushed : c.queue.push ⟨batch.snapshot, (c.ownOperations batch).map (·.id)⟩ = .ok queue)
    (distinct : ((c.ownOperations batch).map (·.id)).Nodup)
    (fresh : ∀ id ∈ (c.ownOperations batch).map (·.id), id ∉ c.table) :
    c.changeFor now (.restore batch) = .ok (some (c.queueBatch queue batch.snapshot
      ((c.ownOperations batch).map (c.stamp batch.snapshot)) [])) := by
  have checked : c.checkFresh ∅ ((c.ownOperations batch).map (·.id)) = .ok () :=
    checkFresh_ok.mpr ⟨distinct, fun id member => ⟨fresh id member, by simp⟩⟩
  have decided : c.restoreChange batch = .ok (c.queueBatch queue batch.snapshot
      ((c.ownOperations batch).map (c.stamp batch.snapshot)) []) :=
    except_bind_ok.mpr ⟨queue, pushed, except_bind_ok.mpr ⟨(), checked, rfl⟩⟩
  exact except_bind_ok.mpr ⟨_, decided, rfl⟩

theorem push_above {q : Queue} (graph : Graph)
    (above : ∀ latest, q.latest = some latest → latest < graph.snapshot) :
    ∃ queue, q.push graph = .ok queue := by
  have checked := Queue.check_eq_ok_iff.mpr above
  cases pushed : q.push graph with
  | ok queue => exact ⟨queue, rfl⟩
  | error error =>
    unfold Queue.push at pushed
    rw [checked] at pushed
    by_cases empty : graph.members.isEmpty = true
    · simp [empty, bind, Except.bind, pure, Except.pure] at pushed
    · simp [empty, bind, Except.bind, pure, Except.pure] at pushed

end Core

namespace Engine
variable {e : Engine Memory} {now : Instant} {request : Request} {change : Change}

/-- A suspended pipeline that has nothing to remove carries out a request and starts nothing. -/
theorem apply_suspended {m : Memory} (decided : e.core.changeFor now request = .ok (some change))
    (busy : change.core.Busy) (suspended : change.core.isSuspended = true)
    (wrote : (e.write change.write) = (.ok (), ⟨e.core, m⟩)) :
    (∃ step, (e.apply now request).1 = .ok step) ∧
      (e.apply now request).2 = ⟨change.core.noteActivity.2, m⟩ := by
  have slots : change.core.freeSlots = 0 := by rw [Core.freeSlots, if_pos suspended]
  have passed : dispatch ⟨change.core, m⟩ now = ([], ⟨change.core, m⟩) := by
    simp only [dispatch, slots]
  have finished : (finish ⟨change.core, m⟩ now change.events).2 =
      ⟨change.core.noteActivity.2, m⟩ := by
    simp only [finish, Core.prune_of_busy busy, passed]
  rw [apply_done decided wrote]
  exact ⟨⟨_, rfl⟩, finished⟩

end Engine

/-- A memory that keeps the records of others as an earlier memory had them, and takes writes. -/
structure Memory.Spares (m former : Memory) (next : Names) : Prop where
  indexed : m.Indexed
  unlocked : m.readOnly = false
  others : ∀ snapshot, m.othersAt next snapshot = former.othersAt next snapshot

theorem Memory.Spares.store {m former : Memory} {next : Names} {operations : List Operation}
    (spares : m.Spares former next) (snapshot : Nat)
    (own : ∀ op ∈ operations, next.owns op.pipeline = true)
    (apart : ∀ snapshot, ∀ record ∈ former.othersAt next snapshot,
      record.id ∉ operations.map (·.id)) :
    (m.store snapshot operations).Spares former next where
  indexed := spares.indexed.store
  unlocked := Memory.readOnly_refileAll.trans spares.unlocked
  others place := by
    have new : ((if snapshot = place then operations else []).filter
        fun op => !next.owns op.pipeline) = [] := by
      refine List.filter_eq_nil_iff.mpr fun op member => ?_
      split at member
      · simp [own op member]
      · cases member
    rw [Memory.othersAt, Memory.recordsAt_store spares.indexed.filed, List.filter_append, new,
      List.append_nil, List.filter_filter, ← spares.others, Memory.othersAt]
    refine List.filter_congr fun record member => ?_
    cases owned : next.owns record.pipeline with
    | true => rfl
    | false =>
      have other : record ∈ former.othersAt next place := by
        rw [← spares.others]
        exact List.mem_filter.mpr ⟨member, by rw [owned]; rfl⟩
      simpa using apart place record other

/-- A new pipeline has taken up what was left of some graphs of an earlier one. Meanwhile it is
suspended, and takes some dependencies for finished. -/
structure Core.TakesUp (c old : Core) (next : Names) (finished : IdSet) (graphs : List Graph) :
    Prop where
  filed : c.Filed
  names : c.names = next
  algorithm : c.algorithm = old.algorithm
  suspended : c.isSuspended = true
  retired : c.retired = finished
  queued : c.queue.graphs = graphs.map old.remaining
  latest : ∀ latest, c.queue.latest = some latest → ∃ graph ∈ graphs, latest = graph.snapshot
  table : ∀ id : OperationId, c.table[id]? =
    if id ∈ graphs.flatMap (·.members) then (old.unfinished? id).map (·.handedTo next) else none

/-- What an earlier pipeline leaves to a new one under other names. -/
structure Core.Leaves (old : Core) (store : Memory) (next : Names) : Prop where
  filed : old.Filed
  busy : old.Busy
  owner : next.owns old.names.current = true
  /-- A record of somebody else has none of the identifiers that are taken up. -/
  apart : ∀ snapshot, ∀ record ∈ store.othersAt next snapshot, old.unfinished? record.id = none

namespace Core
variable {c old : Core} {store m : Memory} {id : OperationId} {op : Operation} {graph : Graph}
  {next : Names} {finished : IdSet} {done left : List Graph} {now : Instant}

theorem Leaves.owned (leaves : old.Leaves store next) (c_names : c.names = next) (graph : Graph) :
    c.ownOperations (old.outstanding graph) = (old.outstanding graph).operations := by
  refine List.filter_eq_self.mpr fun op member => ?_
  obtain ⟨id, -, found⟩ := List.mem_filterMap.mp member
  rw [c_names, leaves.filed.owner id op (unfinished?_eq_some.mp found).1]
  exact leaves.owner

theorem Filed.outstanding_ids (filed : old.Filed) (graph : Graph) :
    (old.outstanding graph).operations.map (·.id) = (old.remaining graph).members := by
  rw [outstanding, remaining]
  induction graph.members with
  | nil => rfl
  | cons id rest ih =>
    cases found : old.unfinished? id with
    | none => simpa [found] using ih
    | some op =>
      have named := filed.keyed id op (unfinished?_eq_some.mp found).1
      simpa [found, named] using ih

theorem Filed.handed_ids (filed : old.Filed) (next : Names) (graph : Graph) :
    ((old.outstanding graph).operations.map (·.handedTo next)).map (·.id) =
      (old.remaining graph).members := by
  rw [List.map_map, ← filed.outstanding_ids graph]
  rfl

/-- The operations of a batch as they are taken up. -/
theorem Leaves.stamped (leaves : old.Leaves store next) (named : c.names = next)
    (queued : graph ∈ old.queue.graphs) :
    (old.outstanding graph).operations.map (c.stamp graph.snapshot) =
      (old.outstanding graph).operations.map (·.handedTo next) := by
  refine List.map_congr_left fun op member => ?_
  obtain ⟨id, listed, found⟩ := List.mem_filterMap.mp member
  have snapshot := leaves.filed.snapshot graph queued id listed op (unfinished?_eq_some.mp found).1
  rw [stamp, named, ← snapshot]
  rfl

theorem TakesUp.busy {graphs : List Graph} (takes : c.TakesUp old next finished graphs)
    (busy : ∀ graph ∈ graphs, ∃ id ∈ graph.members, old.Unfinished id) : c.Busy := by
  intro graph queued
  rw [takes.queued] at queued
  obtain ⟨former, member, rfl⟩ := List.mem_map.mp queued
  obtain ⟨id, listed, unfinished⟩ := busy former member
  have isSome := unfinished_iff.mp unfinished
  obtain ⟨op, found⟩ := Option.isSome_iff_exists.mp isSome
  refine ⟨id, List.mem_filter.mpr ⟨listed, isSome⟩, op.handedTo next, ?_, rfl⟩
  rw [takes.table, if_pos (List.mem_flatMap.mpr ⟨former, member, listed⟩), found]
  rfl

theorem TakesUp.noteActivity {graphs : List Graph} (takes : c.TakesUp old next finished graphs) :
    c.noteActivity.2.TakesUp old next finished graphs where
  filed := takes.filed.of_continues rfl rfl rfl (.refl _)
  names := takes.names
  algorithm := takes.algorithm
  suspended := takes.suspended
  retired := takes.retired
  queued := takes.queued
  latest := takes.latest
  table := takes.table

section Step
variable (leaves : old.Leaves store next) (split : old.queue.graphs = done ++ graph :: left)
include leaves split

/-- The batch of the next graph fits: its operations are live nowhere, and its snapshot is above
all that were taken up before. -/
theorem TakesUp.fits (takes : c.TakesUp old next finished done) (now : Instant) :
    ∃ queue, c.BatchFits queue graph.snapshot
        ((old.outstanding graph).operations.map (·.handedTo next)) [] ∧
      c.changeFor now (.restore (old.outstanding graph)) =
        .ok (some (c.queueBatch queue graph.snapshot
          ((old.outstanding graph).operations.map (·.handedTo next)) [])) := by
  have queued : graph ∈ old.queue.graphs := by simp [split]
  have own := leaves.owned takes.names graph
  have ids := leaves.filed.outstanding_ids graph
  have everywhere := leaves.filed.distinct
  rw [split, List.flatMap_append, List.flatMap_cons] at everywhere
  have distinct : (old.remaining graph).members.Nodup :=
    List.filter_sublist.nodup (List.nodup_append.mp (List.nodup_append.mp everywhere).2.1).1
  have fresh : ∀ id ∈ (old.remaining graph).members, id ∉ c.table := by
    intro id member live
    have listed : id ∈ graph.members := (List.mem_filter.mp member).1
    obtain ⟨op, held⟩ := mem_table.mp live
    rw [takes.table] at held
    split at held
    · rename_i before
      exact (List.nodup_append.mp everywhere).2.2 id before id
        (List.mem_append_left _ listed) rfl
    · cases held
  have above : ∀ latest, c.queue.latest = some latest → latest < graph.snapshot := by
    intro latest known
    obtain ⟨lower, before, rfl⟩ := takes.latest latest known
    have ascending := leaves.filed.ascending
    rw [split, List.pairwise_append] at ascending
    exact ascending.2.2 lower before graph List.mem_cons_self
  obtain ⟨queue, pushed⟩ :=
    push_above ⟨graph.snapshot, (old.remaining graph).members⟩ above
  rw [← ids, ← own] at pushed distinct fresh
  have fits := restore_fits pushed distinct fresh
  have decided := restore_admitted now pushed distinct fresh
  rw [own] at fits decided
  have stamped := leaves.stamped takes.names queued
  refine ⟨queue, ?_, ?_⟩
  · rw [← stamped]
    exact fits
  · rw [← stamped]
    exact decided

theorem TakesUp.batch {queue : Queue} (takes : c.TakesUp old next finished done)
    (fits : c.BatchFits queue graph.snapshot
      ((old.outstanding graph).operations.map (·.handedTo next)) []) :
    (c.queueBatch queue graph.snapshot
      ((old.outstanding graph).operations.map (·.handedTo next)) []).core.TakesUp old next finished
        (done ++ [graph]) := by
  have queued : graph ∈ old.queue.graphs := by simp [split]
  have ids := leaves.filed.handed_ids next graph
  refine ⟨takes.filed.batch fits, takes.names, takes.algorithm, takes.suspended, takes.retired,
    ?queued, ?latest, ?table⟩
  case queued =>
    obtain ⟨id, listed, unfinished⟩ := leaves.busy graph queued
    have member : id ∈ (old.remaining graph).members :=
      List.mem_filter.mpr ⟨listed, unfinished_iff.mp unfinished⟩
    change queue.graphs = _
    rw [batch_graphs fits, ids, if_neg (List.ne_nil_of_mem member), takes.queued, List.map_append]
    rfl
  case latest =>
    intro latest known
    have newest : queue.latest = some graph.snapshot := (push_ok fits.pushed).2.1
    have same : graph.snapshot = latest := Option.some.inj (newest.symm.trans known)
    exact ⟨graph, by simp, same.symm⟩
  case table =>
    intro id
    simp only [List.flatMap_append, List.flatMap_singleton, List.mem_append]
    by_cases member : id ∈ (old.remaining graph).members
    · obtain ⟨listed, isSome⟩ := List.mem_filter.mp member
      obtain ⟨op, found⟩ := Option.isSome_iff_exists.mp isSome
      have named := leaves.filed.keyed id op (unfinished?_eq_some.mp found).1
      have taken : op.handedTo next ∈ (old.outstanding graph).operations.map (·.handedTo next) :=
        List.mem_map_of_mem (List.mem_filterMap.mpr ⟨id, listed, found⟩)
      rw [if_pos (.inr listed), found, Option.map_some, ← named]
      exact lookup_batch_member fits taken
    · rw [lookup_batch_other takes.filed (by rwa [ids]), takes.table]
      by_cases before : id ∈ done.flatMap (·.members)
      · rw [if_pos before, if_pos (.inl before)]
        cases old.unfinished? id <;> rfl
      · rw [if_neg before]
        split
        · rename_i somewhere
          have listed := somewhere.resolve_left before
          have through : old.unfinished? id = none := by
            by_contra found
            exact member (List.mem_filter.mpr ⟨listed, Option.isSome_iff_ne_none.mpr found⟩)
          rw [through]
          rfl
        · rfl

end Step

end Core

namespace Engine
variable {e : Engine Memory} {old : Core} {store : Memory} {graph : Graph} {next : Names}
  {finished : IdSet} {done left : List Graph}

theorem write_save {snapshot : Nat} {operations : List Operation}
    (unlocked : e.store.readOnly = false) :
    e.write (some (.save snapshot operations [])) =
      (.ok (), ⟨e.core, e.store.store snapshot operations⟩) := by
  have fitting : e.store.strayEdge? (operations.map (·.id)) [] = none := rfl
  have saved : e.store.perform (.save snapshot operations []) =
      (.ok (), e.store.store snapshot operations) := by
    rw [Memory.perform_unlocked unlocked]
    exact Memory.save_fitting fitting
  have performed : OperationStore.perform e.store (.save snapshot operations []) =
      (.ok (), e.store.store snapshot operations) := saved
  simp only [write, performed]

/-- The batch of the next graph is taken up. -/
theorem apply_restore (leaves : old.Leaves store next)
    (split : old.queue.graphs = done ++ graph :: left)
    (takes : e.core.TakesUp old next finished done) (spares : e.store.Spares store next)
    (now : Instant) :
    (∃ step, (e.apply now (.restore (old.outstanding graph))).1 = .ok step) ∧
      (e.apply now (.restore (old.outstanding graph))).2.core.TakesUp old next finished
        (done ++ [graph]) ∧
      (e.apply now (.restore (old.outstanding graph))).2.store.Spares store next := by
  have queued : graph ∈ old.queue.graphs := by simp [split]
  obtain ⟨queue, fits, decided⟩ := takes.fits leaves split now
  have taken := takes.batch leaves split fits
  have ids := leaves.filed.handed_ids next graph
  have busy : ∀ former ∈ done ++ [graph], ∃ id ∈ former.members, old.Unfinished id := by
    intro former member
    refine leaves.busy former ?_
    rw [split, List.append_cons]
    exact List.mem_append_left left member
  have nonempty : ((old.outstanding graph).operations.map (·.handedTo next)).isEmpty = false := by
    obtain ⟨id, listed, unfinished⟩ := leaves.busy graph queued
    have member : id ∈ (old.remaining graph).members :=
      List.mem_filter.mpr ⟨listed, Core.unfinished_iff.mp unfinished⟩
    rw [← ids] at member
    obtain ⟨op, member, -⟩ := List.mem_map.mp member
    exact List.isEmpty_eq_false_iff.mpr (List.ne_nil_of_mem member)
  have written : e.write (e.core.queueBatch queue graph.snapshot
      ((old.outstanding graph).operations.map (·.handedTo next)) []).write =
        (.ok (), ⟨e.core, e.store.store graph.snapshot
          ((old.outstanding graph).operations.map (·.handedTo next))⟩) := by
    simp only [Core.queueBatch, nonempty, Bool.false_eq_true, ↓reduceIte]
    exact write_save spares.unlocked
  obtain ⟨accepted, after⟩ := apply_suspended decided (taken.busy busy) taken.suspended written
  rw [after]
  refine ⟨accepted, taken.noteActivity, spares.store graph.snapshot ?_ ?_⟩
  · intro op member
    obtain ⟨former, -, rfl⟩ := List.mem_map.mp member
    exact Names.owns_iff.mpr (.inl rfl)
  · intro snapshot record other member
    rw [ids] at member
    have unfinished := (List.mem_filter.mp member).2
    rw [leaves.apart snapshot record other] at unfinished
    cases unfinished

/-- All batches are taken up, one after the other. -/
theorem calls_restore (e : Engine Memory) (leaves : old.Leaves store next)
    (split : old.queue.graphs = done ++ left)
    (takes : e.core.TakesUp old next finished done) (spares : e.store.Spares store next)
    {times : List Instant} (timed : times.length = left.length) :
    (∀ answer ∈ (e.calls (restoreCalls times (left.map old.outstanding))).1,
        ∃ step, answer = .ok step) ∧
      (e.calls (restoreCalls times (left.map old.outstanding))).2.core.TakesUp old next finished
        old.queue.graphs ∧
      (e.calls (restoreCalls times (left.map old.outstanding))).2.store.Spares store next := by
  induction left generalizing e done times with
  | nil =>
    rw [List.append_nil] at split
    rw [List.length_nil, List.length_eq_zero_iff] at timed
    subst timed
    exact ⟨List.forall_mem_nil _, split ▸ takes, spares⟩
  | cons graph rest ih =>
    cases times with
    | nil => cases timed
    | cons now times =>
      obtain ⟨accepted, taken, spared⟩ := e.apply_restore leaves split takes spares now
      have later := ih _ (by rw [split, List.append_assoc]; rfl) taken spared (by simpa using timed)
      refine ⟨?_, later.2⟩
      rintro answer (_ | ⟨_, member⟩)
      · exact accepted
      · exact later.1 answer member

end Engine

end CommitPipeline
