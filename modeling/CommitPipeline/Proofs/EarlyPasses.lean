import CommitPipeline.Proofs.Announcements
import CommitPipeline.Proofs.Eligibility
import CommitPipeline.Proofs.Slots

/-! A pass that comes early makes no difference to a later one, as long as there is a slot for every
live operation. The graphs that it takes out the later pass would take out, and the operations that
it starts the later pass would start: finalizing others in between hinders nobody. -/
namespace CommitPipeline

namespace Queue

theorem prune_eq (q : Queue) (drained : Graph → Bool) : (q.prune drained).2 = { q with
    graphs := q.graphs.filter fun graph => !drained graph
    places := if q.graphs.filter drained = [] then q.places
      else placesOf (q.graphs.filter fun graph => !drained graph) } := by
  simp only [prune, List.partition_eq_filter_filter, List.isEmpty_iff]
  split <;> rfl

theorem prune_congr {q : Queue} {one other : Graph → Bool}
    (same : ∀ graph ∈ q.graphs, one graph = other graph) :
    (q.prune one).2 = (q.prune other).2 := by
  have kept : q.graphs.filter (fun graph => !one graph) =
      q.graphs.filter fun graph => !other graph :=
    List.filter_congr fun graph queued => by rw [same graph queued]
  rw [prune_eq, prune_eq, kept, List.filter_congr same]

/-- Taking out some of the graphs first makes no difference. -/
theorem prune_prune {q : Queue} {early late : Graph → Bool}
    (within : ∀ graph ∈ q.graphs, early graph = true → late graph = true) :
    ((q.prune early).2.prune late).2 = (q.prune late).2 := by
  have kept : (q.graphs.filter fun graph => !early graph).filter (fun graph => !late graph) =
      q.graphs.filter fun graph => !late graph := by
    rw [List.filter_filter]
    refine List.filter_congr fun graph queued => ?_
    cases isEarly : early graph with
    | false => simp
    | true => simp [within graph queued isEarly]
  simp only [prune_eq, kept, Queue.mk.injEq, true_and, and_true]
  by_cases none : q.graphs.filter late = []
  · -- Nothing goes at all.
    have noneEarly : q.graphs.filter early = [] := by
      refine List.filter_eq_nil_iff.mpr fun graph queued isEarly => ?_
      exact List.filter_eq_nil_iff.mp none graph queued (within graph queued isEarly)
    have noneLater : (q.graphs.filter fun graph => !early graph).filter late = [] :=
      List.filter_eq_nil_iff.mpr fun graph queued =>
        List.filter_eq_nil_iff.mp none graph (List.mem_of_mem_filter queued)
    rw [if_pos noneLater, if_pos noneEarly, if_pos none]
  · rw [if_neg none]
    split
    · -- All that goes has gone early, so the places were computed then.
      rename_i noneLater
      have someEarly : q.graphs.filter early ≠ [] := by
        intro noneEarly
        refine none (List.filter_eq_nil_iff.mpr fun graph queued => ?_)
        refine List.filter_eq_nil_iff.mp noneLater graph (List.mem_filter.mpr ⟨queued, ?_⟩)
        simpa using List.filter_eq_nil_iff.mp noneEarly graph queued
      have same : q.graphs.filter (fun graph => !early graph) =
          q.graphs.filter fun graph => !late graph := by
        rw [← kept]
        refine (List.filter_eq_self.mpr fun graph queued => ?_).symm
        simpa using List.filter_eq_nil_iff.mp noneLater graph queued
      rw [if_neg someEarly, same]
    · rfl

end Queue

namespace Core
variable {c d : Core} {id dependency target : OperationId} {op : Operation} {graph : Graph}
  {now : Instant} {operations : List Operation} {status : Status}

theorem isDrained_iff_unfinished :
    c.isDrained graph = true ↔ ∀ id ∈ graph.members, ¬ c.Unfinished id := by
  rw [isDrained_iff]
  simp only [Unfinished, not_exists, not_and, Bool.not_eq_false]

theorem unfinished_pruned : c.prune.2.Unfinished id ↔ c.Unfinished id :=
  ⟨fun ⟨op, held, unfinished⟩ => ⟨op, held_of_pruned held, unfinished⟩,
    fun ⟨op, held, unfinished⟩ => ⟨op, unfinished_kept held unfinished, unfinished⟩⟩

/-- A live operation is either final or unfinished. -/
theorem through_iff : c.Through id ↔ id ∈ c.table ∧ ¬ c.Unfinished id := by
  constructor
  · rintro ⟨op, held, final⟩
    refine ⟨mem_table.mpr ⟨op, held⟩, fun ⟨other, found, unfinished⟩ => ?_⟩
    cases held.symm.trans found
    rw [final] at unfinished
    cases unfinished
  · rintro ⟨live, finished⟩
    obtain ⟨op, held⟩ := mem_table.mp live
    exact ⟨op, held, Bool.eq_true_of_not_eq_false fun unfinished => finished ⟨op, held, unfinished⟩⟩

theorem unfinished_of_pending (held : c.table[id]? = some op) (pending : op.status = .pending) :
    c.Unfinished id := ⟨op, held, by rw [pending]; rfl⟩

/-! ### A slot for every operation -/

/-- There is a slot for every live operation. -/
structure Roomy (c : Core) : Prop where
  filed : c.Filed
  tracked : c.Tracked
  slots : c.table.size ≤ c.limit

/-- What a pass offers: all that is ready, unless the pipeline is suspended. -/
def offers (c : Core) (now : Instant) : List OperationId :=
  if c.isSuspended then [] else c.ready now

/-- Operations as they are handed out. -/
def handedOut (c : Core) (ids : List OperationId) : List Operation :=
  ids.filterMap fun id => c.table[id]?.map ({ · with status := .active })

theorem map_handedOut {ids : List OperationId} (keyed : c.table.Keyed)
    (live : ∀ id ∈ ids, id ∈ c.table) : (c.handedOut ids).map (·.id) = ids := by
  induction ids with
  | nil => rfl
  | cons id rest ih =>
    obtain ⟨op, held⟩ := mem_table.mp (live id List.mem_cons_self)
    have named := keyed id op held
    rw [handedOut, List.filterMap_cons, held, Option.map_some, List.map_cons]
    refine congrArg₂ List.cons named (ih fun other member => ?_)
    exact live other (List.mem_cons_of_mem _ member)

theorem Dispatches.eq_handedOut (dispatches : c.Dispatches now operations) :
    operations = c.handedOut (operations.map (·.id)) := by
  have started := dispatches.started
  clear dispatches
  induction operations with
  | nil => rfl
  | cons first rest ih =>
    obtain ⟨⟨waiting, held, handedOut⟩, later⟩ := List.forall_mem_cons.mp started
    rw [List.map_cons, Core.handedOut, List.filterMap_cons, held, Option.map_some, ← handedOut]
    exact congrArg (first :: ·) (ih later)

theorem offers_sublist (c : Core) (now : Instant) : (c.offers now).Sublist (c.ready now) := by
  rw [offers]
  split
  · exact List.nil_sublist _
  · exact .refl _

theorem pending_of_offers (offered : id ∈ c.offers now) :
    ∃ op, c.table[id]? = some op ∧ op.status = .pending :=
  Readiness.pending_of_ready ((c.offers_sublist now).subset offered)

theorem Filed.offers_nodup (filed : c.Filed) : (c.offers now).Nodup :=
  (c.offers_sublist now).nodup filed.ready_nodup

/-- What is ready and what has a slot are different live operations. -/
theorem Roomy.enough (roomy : c.Roomy) (now : Instant) :
    (c.prune.2.ready now).length + c.active.size ≤ c.limit := by
  have distinctActive : c.active.toList.Nodup :=
    Std.ExtTreeSet.distinct_toList.imp fun differ same => differ (by simp [same])
  have distinct : (c.prune.2.ready now ++ c.active.toList).Nodup := by
    refine List.Nodup.append roomy.filed.prune.ready_nodup distinctActive ?_
    rw [List.disjoint_left]
    intro id ready member
    obtain ⟨waiting, held, pending⟩ := Readiness.pending_of_ready ready
    obtain ⟨running, found, isActive⟩ :=
      roomy.tracked.handedOut id (Std.ExtTreeSet.mem_toList.mp member)
    cases (held_of_pruned held).symm.trans found
    rw [pending] at isActive
    cases isActive
  have live : c.prune.2.ready now ++ c.active.toList ⊆ c.table.keys := by
    intro id member
    rw [Std.ExtTreeMap.mem_keys]
    rcases List.mem_append.mp member with ready | taken
    · obtain ⟨waiting, held, -⟩ := Readiness.pending_of_ready ready
      exact mem_table.mpr ⟨waiting, held_of_pruned held⟩
    · obtain ⟨running, found, -⟩ := roomy.tracked.handedOut id (Std.ExtTreeSet.mem_toList.mp taken)
      exact mem_table.mpr ⟨running, found⟩
  have bound := (distinct.subperm live).length_le
  rw [List.length_append, Std.ExtTreeSet.length_toList, Std.ExtTreeMap.length_keys] at bound
  exact bound.trans roomy.slots

/-- With a slot for each, a pass starts all that it offers. -/
theorem Roomy.dispatches (roomy : c.Roomy) (now : Instant) :
    c.prune.2.Dispatches now (c.prune.2.handedOut (c.prune.2.offers now)) := by
  have live : ∀ id ∈ c.prune.2.offers now, id ∈ c.prune.2.table := fun id offered =>
    have ⟨op, held, _⟩ := pending_of_offers offered
    mem_table.mpr ⟨op, held⟩
  have ids := map_handedOut roomy.filed.prune.keyed live
  refine ⟨?_, ?_, fun op member => ?_⟩
  · rw [ids]
    exact c.prune.2.offers_sublist now
  · rw [← List.length_map (·.id), ids, offers, freeSlots, pruned_active, pruned_limit]
    have enough := roomy.enough now
    split
    · exact Nat.zero_le _
    · omega
  · obtain ⟨id, -, made⟩ := List.mem_filterMap.mp member
    obtain ⟨waiting, held, rfl⟩ := Option.map_eq_some_iff.mp made
    have named := roomy.filed.prune.keyed id waiting held
    exact ⟨waiting, named ▸ held, rfl⟩

theorem Roomy.ids_handedOut (roomy : c.Roomy) (now : Instant) :
    (c.prune.2.handedOut (c.prune.2.offers now)).map (·.id) = c.prune.2.offers now :=
  map_handedOut roomy.filed.prune.keyed fun _ offered =>
    have ⟨op, held, _⟩ := pending_of_offers offered
    mem_table.mpr ⟨op, held⟩

/-- What a pass makes of a core if it starts all that it offers. -/
def passed (c : Core) (now : Instant) : Core :=
  c.settled (c.prune.2.handedOut (c.prune.2.offers now))

theorem Roomy.lookup_passed (roomy : c.Roomy) (now : Instant) (id : OperationId) :
    (c.passed now).table[id]? =
      if id ∈ c.drainedMembers then none
      else if id ∈ c.prune.2.offers now then c.table[id]?.map ({ · with status := .active })
      else c.table[id]? := by
  have dispatches := roomy.dispatches now
  have ids := roomy.ids_handedOut now
  change (c.prune.2.startAll _).table[id]? = _
  by_cases offered : id ∈ c.prune.2.offers now
  · obtain ⟨op, member, rfl⟩ := List.mem_map.mp (ids.symm ▸ offered)
    obtain ⟨waiting, held, handedOut⟩ := dispatches.started op member
    rw [lookup_started dispatches roomy.filed.prune member, if_pos offered, held_of_pruned held,
      Option.map_some, ← handedOut, if_neg]
    intro drained
    rw [lookup_pruned, if_pos drained] at held
    cases held
  · rw [lookup_not_started (ids.symm ▸ offered), lookup_pruned, if_neg offered]

theorem Roomy.mem_active_passed (roomy : c.Roomy) :
    id ∈ (c.passed now).active ↔ id ∈ c.prune.2.offers now ∨ id ∈ c.active := by
  rw [passed, settled_active, roomy.ids_handedOut]

theorem Roomy.passed (roomy : c.Roomy) (now : Instant) : (c.passed now).Roomy where
  filed := roomy.filed.settle (roomy.dispatches now)
  tracked := roomy.tracked.settle roomy.filed (roomy.dispatches now)
  slots := by
    have live : (c.passed now).table.keys ⊆ c.table.keys := by
      intro id member
      rw [Std.ExtTreeMap.mem_keys] at member ⊢
      exact ((mem_settled_table roomy.filed (roomy.dispatches now)).mp member).1
    have fewer := (Std.ExtTreeMap.nodup_keys.subperm live).length_le
    rw [Std.ExtTreeMap.length_keys, Std.ExtTreeMap.length_keys] at fewer
    rw [Core.passed, settled_limit]
    exact fewer.trans roomy.slots

/-! ### What a pass starts -/

/-- A dependency that holds nobody up once drained graphs are gone. -/
def Free (c : Core) (dependency : OperationId) : Prop :=
  match c.algorithm with
  | .commitGraph => ∀ graph, c.prune.2.queue.oldest? = some graph →
    dependency ∈ graph.members → ¬ c.Unfinished dependency
  | .flatGraph => (dependency ∈ c.table ∨ dependency ∈ c.retired) ∧ ¬ c.Unfinished dependency

theorem Filed.cleared_pruned (filed : c.Filed) :
    c.prune.2.Cleared dependency ↔ c.Free dependency := by
  have through : c.prune.2.Through dependency ↔
      dependency ∈ c.prune.2.table ∧ ¬ c.Unfinished dependency := by
    rw [through_iff, unfinished_pruned]
  cases algorithm : c.algorithm with
  | commitGraph =>
    rw [Cleared, Free, pruned_algorithm, algorithm]
    refine forall_congr' fun graph => imp_congr_right fun oldest => imp_congr_right fun member => ?_
    rw [through, and_iff_right]
    exact mem_table.mpr (filed.prune.live (List.mem_of_head? oldest) member)
  | flatGraph =>
    rw [Cleared, Free, pruned_algorithm, algorithm]
    -- What a pass takes out was live and final before, and is among the retired afterwards.
    have live (unfinished : c.Unfinished dependency) : dependency ∈ c.prune.2.table := by
      obtain ⟨op, held, unfinished⟩ := unfinished
      exact mem_table.mpr ⟨op, unfinished_kept held unfinished⟩
    have retired (drained : dependency ∈ c.drainedMembers) : dependency ∈ c.table := by
      obtain ⟨op, held, -⟩ := final_of_drained filed drained
      exact mem_table.mpr ⟨op, held⟩
    rw [mem_pruned_table] at through live
    rw [through, mem_pruned_table, mem_retired_pruned]
    grind

/-- An operation that the next pass offers. -/
structure Begins (c : Core) (now : Instant) (id : OperationId) (op : Operation) : Prop where
  running : c.isSuspended = false
  held : c.table[id]? = some op
  pending : op.status = .pending
  due : op.isHeld now = false
  inTurn : c.algorithm = .commitGraph →
    ∃ graph, c.prune.2.queue.oldest? = some graph ∧ id ∈ graph.members
  free : ∀ dependency ∈ op.dependencies, c.Free dependency

theorem Filed.mem_offers_pruned (filed : c.Filed) :
    id ∈ c.prune.2.offers now ↔ ∃ op, c.Begins now id op := by
  have suspended : c.prune.2.isSuspended = c.isSuspended := by
    rw [isSuspended, isSuspended, pruned_suspendCount]
  rw [offers, suspended]
  cases running : c.isSuspended with
  | true =>
    refine iff_of_false (by simp) fun ⟨op, begins⟩ => ?_
    exact Bool.false_ne_true (begins.running.symm.trans running)
  | false =>
    rw [if_neg Bool.false_ne_true, filed.prune.mem_ready_iff]
    refine exists_congr fun op => ⟨fun ⟨unhindered, due⟩ => ?_, fun begins => ⟨?_, begins.due⟩⟩
    · exact ⟨running, held_of_pruned unhindered.held, unhindered.pending, due,
        fun inOrder => unhindered.inTurn ((pruned_algorithm c).trans inOrder),
        fun dependency depends => filed.cleared_pruned.mp (unhindered.cleared dependency depends)⟩
    · have kept := unfinished_kept begins.held (by rw [begins.pending]; rfl)
      exact ⟨kept, begins.pending,
        fun inOrder => begins.inTurn ((pruned_algorithm c).symm.trans inOrder),
        fun dependency depends => filed.cleared_pruned.mpr (begins.free dependency depends)⟩

/-! ### Finalizing an operation -/

theorem lookup_finalize (c : Core) (target : OperationId) (status : Status) (id : OperationId) :
    (c.finalize target status).core.table[id]? =
      if target = id then c.table[id]?.map ({ · with status }) else c.table[id]? :=
  lookup_modify _

theorem finalize_continues (c : Core) (target : OperationId) (status : Status) :
    c.table.Continues (c.finalize target status).core.table :=
  modify_continues fun _ => Operation.continues_of_eq rfl

theorem unfinished_finalize (final : status.isFinal = true) :
    (c.finalize target status).core.Unfinished id ↔ c.Unfinished id ∧ id ≠ target := by
  simp only [Unfinished, lookup_finalize]
  by_cases here : target = id
  · subst here
    simp [final]
  · simp [here, Ne.symm here]

theorem isDrained_finalize (final : status.isFinal = true) (drained : c.isDrained graph = true) :
    (c.finalize target status).core.isDrained graph = true := by
  rw [isDrained_iff_unfinished] at drained ⊢
  exact fun id member unfinished => drained id member ((unfinished_finalize final).mp unfinished).1

theorem Roomy.finalize (roomy : c.Roomy) (target : OperationId) (final : status.isFinal = true) :
    (c.finalize target status).core.Roomy where
  filed := roomy.filed.of_continues rfl rfl rfl (finalize_continues c target status)
  tracked := roomy.tracked.release fun _ active => by
    change status = .active at active
    rw [active] at final
    cases final
  slots := by
    have same : (c.finalize target status).core.table.keys.Perm c.table.keys :=
      (List.perm_ext_iff_of_nodup Std.ExtTreeMap.nodup_keys Std.ExtTreeMap.nodup_keys).mpr
        fun id => by
          rw [Std.ExtTreeMap.mem_keys, Std.ExtTreeMap.mem_keys,
            (finalize_continues c target status).mem_iff]
    have size := same.length_eq
    rw [Std.ExtTreeMap.length_keys, Std.ExtTreeMap.length_keys] at size
    rw [size]
    exact roomy.slots

/-- The oldest graph with work stays the oldest if there is still work in it. -/
theorem oldest_finalize (final : status.isFinal = true)
    (oldest : c.prune.2.queue.oldest? = some graph) (member : id ∈ graph.members)
    (unfinished : (c.finalize target status).core.Unfinished id) :
    (c.finalize target status).core.prune.2.queue.oldest? = some graph := by
  have pruned : (c.finalize target status).core.prune.2.queue =
      (c.prune.2.queue.prune (c.finalize target status).core.isDrained).2 := by
    rw [pruned_queue, pruned_queue c]
    exact (Queue.prune_prune fun graph _ drained => isDrained_finalize final drained).symm
  have busy : (c.finalize target status).core.isDrained graph = false := by
    rw [Bool.eq_false_iff, Ne, isDrained_iff_unfinished]
    exact fun drained => drained id member unfinished
  rw [Queue.oldest?] at oldest
  obtain ⟨rest, graphs⟩ := List.head?_eq_some_iff.mp oldest
  rw [pruned, Queue.oldest?, Queue.prune_graphs, graphs,
    List.filter_cons_of_pos (by rw [busy]; rfl), List.head?_cons]

/-- Finalizing an operation keeps no other from being started. -/
theorem Begins.finalize (begins : c.Begins now id op) (final : status.isFinal = true)
    (other : id ≠ target) : (c.finalize target status).core.Begins now id op := by
  have held : (c.finalize target status).core.table[id]? = some op := by
    rw [lookup_finalize, if_neg (Ne.symm other), begins.held]
  have unfinished := unfinished_of_pending held begins.pending
  refine ⟨begins.running, held, begins.pending, begins.due, fun inOrder => ?_,
    fun dependency depends => ?_⟩
  · obtain ⟨graph, oldest, member⟩ := begins.inTurn inOrder
    exact ⟨graph, oldest_finalize final oldest member unfinished, member⟩
  · have free := begins.free dependency depends
    have finished : ¬ c.Unfinished dependency →
        ¬ (c.finalize target status).core.Unfinished dependency :=
      mt fun unfinished => ((unfinished_finalize final).mp unfinished).1
    cases algorithm : c.algorithm with
    | commitGraph =>
      have same : (c.finalize target status).core.algorithm = .commitGraph := algorithm
      obtain ⟨graph, oldest, member⟩ := begins.inTurn algorithm
      rw [Free, algorithm] at free
      rw [Free, same]
      intro other otherOldest inside
      rw [oldest_finalize final oldest member unfinished] at otherOldest
      cases otherOldest
      exact finished (free graph oldest inside)
    | flatGraph =>
      have same : (c.finalize target status).core.algorithm = .flatGraph := algorithm
      rw [Free, algorithm] at free
      rw [Free, same]
      exact ⟨free.1.imp_left (finalize_continues c target status).mem_iff.mpr, finished free.2⟩

/-! ### A core that part of a pass has been made of -/

/-- The members of some of the queued graphs. -/
def membersOf (c : Core) (gone : Graph → Bool) : List OperationId :=
  (c.queue.graphs.filter gone).flatMap (·.members)

/-- One core is ahead of another: some drained graphs are gone, and some operations that the next
pass offers have been started. -/
structure Ahead (c : Core) (now : Instant) (gone : Graph → Bool) (started : List OperationId)
    (d : Core) : Prop where
  drained : ∀ graph ∈ c.queue.graphs, gone graph = true → c.isDrained graph = true
  offered : ∀ id ∈ started, ∃ op, c.Begins now id op
  distinct : started.Nodup
  names : d.names = c.names
  algorithm : d.algorithm = c.algorithm
  limit : d.limit = c.limit
  suspendCount : d.suspendCount = c.suspendCount
  queue : d.queue = (c.queue.prune gone).2
  table : ∀ id : OperationId, d.table[id]? =
    if id ∈ c.membersOf gone then none
    else if id ∈ started then c.table[id]?.map ({ · with status := .active })
    else c.table[id]?
  active : ∀ id, id ∈ d.active ↔ id ∈ started ∨ id ∈ c.active
  recovered : ∀ id, id ∈ d.recovered ↔ id ∉ c.membersOf gone ∧ id ∈ c.recovered
  retired : ∀ id, id ∈ d.retired ↔ id ∈ c.membersOf gone ∨ id ∈ c.retired

/-- A pass leads ahead. -/
theorem Roomy.ahead_passed (roomy : c.Roomy) (now : Instant) :
    c.Ahead now c.isDrained (c.prune.2.offers now) (c.passed now) where
  drained _ _ drained := drained
  offered _ offered := roomy.filed.mem_offers_pruned.mp offered
  distinct := roomy.filed.prune.offers_nodup
  names := settled_names ..
  algorithm := settled_algorithm ..
  limit := settled_limit ..
  suspendCount := settled_suspendCount ..
  queue := (settled_queue ..).trans (pruned_queue c)
  table := roomy.lookup_passed now
  active id := roomy.mem_active_passed
  recovered id := settled_recovered ..
  retired id := by
    rw [Core.passed, settled_retired]
    exact mem_retired_pruned

section Ahead
variable {gone : Graph → Bool} {started : List OperationId}

theorem Ahead.finished (ahead : c.Ahead now gone started d) (member : id ∈ c.membersOf gone) :
    ¬ c.Unfinished id := by
  obtain ⟨graph, isGone, inside⟩ := List.mem_flatMap.mp member
  obtain ⟨queued, isGone⟩ := List.mem_filter.mp isGone
  exact isDrained_iff_unfinished.mp (ahead.drained graph queued isGone) id inside

/-- It stays ahead when the same operation is finalized in both. -/
theorem Ahead.finalize (ahead : c.Ahead now gone started d) (final : status.isFinal = true)
    (unfinished : c.Unfinished target) :
    (c.finalize target status).core.Ahead now gone (started.filter (· ≠ target))
      (d.finalize target status).core where
  drained graph queued isGone := isDrained_finalize final (ahead.drained graph queued isGone)
  offered id member := by
    obtain ⟨member, other⟩ := List.mem_filter.mp member
    obtain ⟨op, begins⟩ := ahead.offered id member
    exact ⟨op, begins.finalize final (by simpa using other)⟩
  distinct := ahead.distinct.sublist List.filter_sublist
  names := ahead.names
  algorithm := ahead.algorithm
  limit := ahead.limit
  suspendCount := ahead.suspendCount
  queue := ahead.queue
  table id := by
    rw [lookup_finalize, lookup_finalize, ahead.table]
    change _ = if id ∈ c.membersOf gone then _ else _
    by_cases here : target = id
    · subst here
      have kept : target ∉ c.membersOf gone := fun member => ahead.finished member unfinished
      simp only [kept, ↓reduceIte, List.mem_filter, decide_not, decide_true, Bool.not_true,
        Bool.false_eq_true, and_false]
      split
      · rw [Option.map_map]
        rfl
      · rfl
    · simp [here, Ne.symm here]
  active id := by
    change id ∈ d.active.erase target ↔ _ ∨ id ∈ c.active.erase target
    simp only [Std.ExtTreeSet.mem_erase, ahead.active, List.mem_filter, decide_not,
      Bool.not_eq_true', decide_eq_false_iff_not]
    grind
  recovered := ahead.recovered
  retired := ahead.retired

theorem Ahead.unfinished (ahead : c.Ahead now gone started d) :
    d.Unfinished id ↔ c.Unfinished id := by
  by_cases isGone : id ∈ c.membersOf gone
  · refine iff_of_false (fun ⟨op, held, _⟩ => ?_) (ahead.finished isGone)
    rw [ahead.table, if_pos isGone] at held
    cases held
  · by_cases isStarted : id ∈ started
    · obtain ⟨op, begins⟩ := ahead.offered id isStarted
      refine iff_of_true ⟨{ op with status := .active }, ?_, rfl⟩
        (unfinished_of_pending begins.held begins.pending)
      rw [ahead.table, if_neg isGone, if_pos isStarted, begins.held, Option.map_some]
    · simp only [Unfinished, ahead.table, if_neg isGone, if_neg isStarted]

theorem Ahead.mem_table (ahead : c.Ahead now gone started d) :
    id ∈ d.table ↔ id ∈ c.table ∧ id ∉ c.membersOf gone := by
  rw [Std.ExtTreeMap.mem_iff_isSome_getElem?, Std.ExtTreeMap.mem_iff_isSome_getElem?, ahead.table]
  by_cases isGone : id ∈ c.membersOf gone
  · simp [isGone]
  · rw [if_neg isGone, and_iff_left isGone]
    split
    · rw [Option.isSome_map]
    · exact .rfl

/-- What is gone is still known. -/
theorem Ahead.known (ahead : c.Ahead now gone started d) (filed : c.Filed) :
    id ∈ d.table ∨ id ∈ d.retired ↔ id ∈ c.table ∨ id ∈ c.retired := by
  have live : id ∈ c.membersOf gone → id ∈ c.table := by
    intro member
    obtain ⟨graph, isGone, inside⟩ := List.mem_flatMap.mp member
    exact (filed.listed id).mpr ⟨graph, List.mem_of_mem_filter isGone, inside⟩
  rw [ahead.mem_table, ahead.retired]
  tauto

theorem Ahead.isDrained_eq (ahead : c.Ahead now gone started d) (graph : Graph) :
    d.isDrained graph = c.isDrained graph := by
  rw [Bool.eq_iff_iff, isDrained_iff_unfinished, isDrained_iff_unfinished]
  simp only [ahead.unfinished]

theorem Ahead.pruned_queue (ahead : c.Ahead now gone started d) :
    d.prune.2.queue = c.prune.2.queue := by
  rw [Core.pruned_queue, Core.pruned_queue, ahead.queue,
    Queue.prune_congr fun graph _ => ahead.isDrained_eq graph, Queue.prune_prune ahead.drained]

theorem Ahead.mem_drainedMembers (ahead : c.Ahead now gone started d) :
    id ∈ c.drainedMembers ↔ id ∈ c.membersOf gone ∨ id ∈ d.drainedMembers := by
  simp only [Core.mem_drainedMembers, membersOf, ahead.queue, Queue.prune_graphs,
    List.mem_flatMap, List.mem_filter, ahead.isDrained_eq]
  constructor
  · rintro ⟨graph, queued, drained, member⟩
    cases isGone : gone graph with
    | true => exact .inl ⟨graph, ⟨queued, isGone⟩, member⟩
    | false => exact .inr ⟨graph, ⟨queued, by rw [isGone]; rfl⟩, drained, member⟩
  · rintro (⟨graph, ⟨queued, isGone⟩, member⟩ | ⟨graph, ⟨queued, -⟩, drained, member⟩)
    · exact ⟨graph, queued, ahead.drained graph queued isGone, member⟩
    · exact ⟨graph, queued, drained, member⟩

theorem Ahead.free (ahead : c.Ahead now gone started d) (filed : c.Filed) :
    d.Free dependency ↔ c.Free dependency := by
  rw [Free, Free, ahead.algorithm, ahead.pruned_queue, ahead.known filed, ahead.unfinished]

/-- What the pass ahead still starts was not started yet, and the pass behind starts it as well. -/
theorem Ahead.begins (ahead : c.Ahead now gone started d) (filed : c.Filed)
    (begins : d.Begins now id op) : id ∉ started ∧ c.Begins now id op := by
  have held := begins.held
  rw [ahead.table] at held
  split at held
  · cases held
  · split at held
    · obtain ⟨waiting, -, rfl⟩ := Option.map_eq_some_iff.mp held
      cases begins.pending
    · rename_i notStarted
      refine ⟨notStarted, ?_, held, begins.pending, begins.due, fun inOrder => ?_,
        fun dependency depends => (ahead.free filed).mp (begins.free dependency depends)⟩
      · have running := begins.running
        rwa [isSuspended, ahead.suspendCount] at running
      · rw [← ahead.pruned_queue]
        exact begins.inTurn (ahead.algorithm.trans inOrder)

theorem Ahead.begins_of_not_started (ahead : c.Ahead now gone started d) (filed : c.Filed)
    (begins : c.Begins now id op) (notStarted : id ∉ started) : d.Begins now id op := by
  have kept : id ∉ c.membersOf gone := fun member =>
    ahead.finished member (unfinished_of_pending begins.held begins.pending)
  refine ⟨?_, ?_, begins.pending, begins.due, fun inOrder => ?_,
    fun dependency depends => (ahead.free filed).mpr (begins.free dependency depends)⟩
  · rw [isSuspended, ahead.suspendCount]
    exact begins.running
  · rw [ahead.table, if_neg kept, if_neg notStarted, begins.held]
  · rw [ahead.pruned_queue]
    exact begins.inTurn (ahead.algorithm.symm.trans inOrder)

theorem Ahead.mem_offers (ahead : c.Ahead now gone started d) (filed : c.Filed)
    (filedAhead : d.Filed) :
    id ∈ c.prune.2.offers now ↔ id ∈ started ∨ id ∈ d.prune.2.offers now := by
  rw [filed.mem_offers_pruned, filedAhead.mem_offers_pruned]
  constructor
  · rintro ⟨op, begins⟩
    by_cases isStarted : id ∈ started
    · exact .inl isStarted
    · exact .inr ⟨op, ahead.begins_of_not_started filed begins isStarted⟩
  · rintro (isStarted | ⟨op, begins⟩)
    · exact ahead.offered id isStarted
    · exact ⟨op, (ahead.begins filed begins).2⟩

/-- Both passes together start what one pass would. -/
theorem Ahead.offers_perm (ahead : c.Ahead now gone started d) (filed : c.Filed)
    (filedAhead : d.Filed) :
    (c.prune.2.offers now).Perm (started ++ d.prune.2.offers now) := by
  have apart : started.Disjoint (d.prune.2.offers now) := by
    rw [List.disjoint_left]
    intro id isStarted offered
    obtain ⟨op, begins⟩ := filedAhead.mem_offers_pruned.mp offered
    exact (ahead.begins filed begins).1 isStarted
  refine (List.perm_ext_iff_of_nodup filed.prune.offers_nodup
    (ahead.distinct.append filedAhead.prune.offers_nodup apart)).mpr fun id => ?_
  rw [List.mem_append]
  exact ahead.mem_offers filed filedAhead

/-- Cores that have noted whether they are active are told apart by what they hold. -/
theorem eq_of_noted {one other : Core} (names : one.names = other.names)
    (algorithm : one.algorithm = other.algorithm) (limit : one.limit = other.limit)
    (suspendCount : one.suspendCount = other.suspendCount) (queue : one.queue = other.queue)
    (table : ∀ id : OperationId, one.table[id]? = other.table[id]?)
    (active : ∀ id, id ∈ one.active ↔ id ∈ other.active)
    (recovered : ∀ id, id ∈ one.recovered ↔ id ∈ other.recovered)
    (retired : ∀ id, id ∈ one.retired ↔ id ∈ other.retired)
    (noted : one.Noted) (notedToo : other.Noted) : one = other := by
  have table := Std.ExtTreeMap.ext_getElem? table
  have active := Std.ExtTreeSet.ext_mem active
  have recovered := Std.ExtTreeSet.ext_mem recovered
  have retired := Std.ExtTreeSet.ext_mem retired
  cases one
  cases other
  subst names algorithm limit suspendCount queue table active recovered retired
  exact congrArg (Core.mk _ _ _ _ _ _ _ _ _) (noted.trans notedToo.symm)

/-- A pass over a core and one over a core that is ahead of it come to the same. -/
theorem Ahead.passed_eq (ahead : c.Ahead now gone started d) (roomy : c.Roomy)
    (roomyAhead : d.Roomy) : d.passed now = c.passed now := by
  have offers (id : OperationId) :
      id ∈ c.prune.2.offers now ↔ id ∈ started ∨ id ∈ d.prune.2.offers now :=
    ahead.mem_offers roomy.filed roomyAhead.filed
  refine eq_of_noted ?_ ?_ ?_ ?_ ?_ (fun id => ?_) (fun id => ?_) (fun id => ?_) (fun id => ?_)
    (noted_settled _ _) (noted_settled _ _)
  · rw [passed, settled_names, passed, settled_names, ahead.names]
  · rw [passed, settled_algorithm, passed, settled_algorithm, ahead.algorithm]
  · rw [passed, settled_limit, passed, settled_limit, ahead.limit]
  · rw [passed, settled_suspendCount, passed, settled_suspendCount, ahead.suspendCount]
  · rw [passed, settled_queue, passed, settled_queue, ahead.pruned_queue]
  · rw [roomyAhead.lookup_passed, roomy.lookup_passed, ahead.table]
    by_cases isDrained : id ∈ c.drainedMembers
    · rw [if_pos isDrained]
      rcases ahead.mem_drainedMembers.mp isDrained with isGone | later
      · simp only [if_pos isGone, Option.map_none, ite_self]
      · rw [if_pos later]
    · obtain ⟨kept, notLater⟩ := not_or.mp (mt ahead.mem_drainedMembers.mpr isDrained)
      rw [if_neg isDrained, if_neg notLater, if_neg kept]
      by_cases isStarted : id ∈ started
      · -- What was started early is as it would be if it were started now.
        have offered : id ∈ c.prune.2.offers now := (offers id).mpr (.inl isStarted)
        simp only [if_pos isStarted, if_pos offered, Option.map_map]
        split <;> rfl
      · simp only [offers id, isStarted, false_or, ↓reduceIte]
  · rw [roomyAhead.mem_active_passed, roomy.mem_active_passed, ahead.active, offers]
    tauto
  · rw [passed, settled_recovered, passed, settled_recovered, ahead.recovered,
      ahead.mem_drainedMembers]
    tauto
  · rw [passed, settled_retired, passed, settled_retired, mem_retired_pruned, mem_retired_pruned,
      ahead.retired, ahead.mem_drainedMembers]
    tauto

end Ahead

end Core
end CommitPipeline
