import CommitPipeline.Proofs.ReadyOperations

/-! How a call ends: drained graphs leave the queue, and then the free slots go to operations that
are ready. `Dispatches` says which operations may be started and `settled` what that makes of the
core; `apply_cases` puts the parts of a call together, whatever the store answers. -/
namespace CommitPipeline

namespace Core
variable {c : Core} {id : OperationId} {op : Operation} {graph : Graph} {ids : List OperationId}

theorem isDrained_iff : c.isDrained graph = true ↔
    ∀ id ∈ graph.members, ∀ op, c.table[id]? = some op → op.status.isFinal = true := by
  rw [isDrained, List.all_eq_true]
  refine forall_congr' fun id => imp_congr_right fun _ => ?_
  cases c.table[id]? <;> simp

/-! ### Removing drained graphs -/

theorem lookup_retireAll :
    (ids.foldl retire c).table[id]? = if id ∈ ids then none else c.table[id]? := by
  induction ids generalizing c with
  | nil => rfl
  | cons first rest ih =>
    rw [List.foldl_cons, ih, retire, lookup_erase]
    by_cases later : id ∈ rest
    · simp [later]
    · by_cases here : first = id
      · simp [here]
      · simp [later, here, Ne.symm here]

theorem mem_recovered_retireAll :
    id ∈ (ids.foldl retire c).recovered ↔ id ∉ ids ∧ id ∈ c.recovered := by
  induction ids generalizing c with
  | nil => simp
  | cons first rest ih =>
    rw [List.foldl_cons, ih]
    simp only [retire, Std.ExtTreeSet.mem_erase, List.mem_cons, not_or]
    grind

theorem mem_retired_retireAll : id ∈ (ids.foldl retire c).retired ↔ id ∈ ids ∨ id ∈ c.retired := by
  induction ids generalizing c with
  | nil => simp
  | cons first rest ih =>
    rw [List.foldl_cons, ih]
    simp only [retire, Std.ExtTreeSet.mem_insert, List.mem_cons]
    grind

private theorem retireAll_eq (ids : List OperationId) (c : Core) :
    ids.foldl retire c = { c with
      table := (ids.foldl retire c).table
      recovered := (ids.foldl retire c).recovered
      retired := (ids.foldl retire c).retired } := by
  induction ids generalizing c with
  | nil => rfl
  | cons first rest ih => exact (ih _).trans rfl

/-- The members of the graphs that are removed. -/
def drainedMembers (c : Core) : List OperationId :=
  (c.queue.graphs.filter c.isDrained).flatMap (·.members)

private theorem pruned_eq (c : Core) : c.prune.2 =
    c.drainedMembers.foldl retire { c with queue := (c.queue.prune c.isDrained).2 } := by
  rw [drainedMembers, ← Queue.prune_gone]
  rfl

theorem mem_drainedMembers : id ∈ c.drainedMembers ↔
    ∃ graph ∈ c.queue.graphs, c.isDrained graph = true ∧ id ∈ graph.members := by
  simp only [drainedMembers, List.mem_flatMap, List.mem_filter, and_assoc]

theorem pruned_queue (c : Core) : c.prune.2.queue = (c.queue.prune c.isDrained).2 := by
  rw [pruned_eq, retireAll_eq]

theorem pruned_graphs (c : Core) :
    c.prune.2.queue.graphs = c.queue.graphs.filter fun graph => !c.isDrained graph := by
  rw [pruned_queue]
  exact Queue.prune_graphs ..

theorem pruned_latest (c : Core) : c.prune.2.queue.latest = c.queue.latest := by
  rw [pruned_eq, retireAll_eq]
  exact Queue.prune_latest ..

theorem lookup_pruned :
    c.prune.2.table[id]? = if id ∈ c.drainedMembers then none else c.table[id]? := by
  rw [pruned_eq, lookup_retireAll]

theorem mem_pruned_table : id ∈ c.prune.2.table ↔ id ∈ c.table ∧ id ∉ c.drainedMembers := by
  rw [mem_table, mem_table, lookup_pruned]
  split <;> simp_all

theorem mem_recovered_pruned :
    id ∈ c.prune.2.recovered ↔ id ∉ c.drainedMembers ∧ id ∈ c.recovered := by
  rw [pruned_eq, mem_recovered_retireAll]

theorem mem_retired_pruned :
    id ∈ c.prune.2.retired ↔ id ∈ c.drainedMembers ∨ id ∈ c.retired := by
  rw [pruned_eq, mem_retired_retireAll]

@[simp] theorem pruned_names (c : Core) : c.prune.2.names = c.names := by
  rw [pruned_eq, retireAll_eq]

@[simp] theorem pruned_algorithm (c : Core) : c.prune.2.algorithm = c.algorithm := by
  rw [pruned_eq, retireAll_eq]

@[simp] theorem pruned_active (c : Core) : c.prune.2.active = c.active := by
  rw [pruned_eq, retireAll_eq]

@[simp] theorem pruned_limit (c : Core) : c.prune.2.limit = c.limit := by
  rw [pruned_eq, retireAll_eq]

@[simp] theorem pruned_suspendCount (c : Core) : c.prune.2.suspendCount = c.suspendCount := by
  rw [pruned_eq, retireAll_eq]

@[simp] theorem pruned_wasActive (c : Core) : c.prune.2.wasActive = c.wasActive := by
  rw [pruned_eq, retireAll_eq]

theorem held_of_pruned (held : c.prune.2.table[id]? = some op) : c.table[id]? = some op := by
  rw [lookup_pruned] at held
  split at held
  · cases held
  · exact held

/-- An operation that is not final keeps its whole graph in the queue. -/
theorem unfinished_kept (held : c.table[id]? = some op) (unfinished : op.status.isFinal = false) :
    c.prune.2.table[id]? = some op := by
  rw [lookup_pruned, if_neg, held]
  intro drained
  obtain ⟨graph, -, isDrained, member⟩ := mem_drainedMembers.mp drained
  have final := isDrained_iff.mp isDrained id member op held
  rw [unfinished] at final
  cases final

theorem final_of_drained (filed : c.Filed) (drained : id ∈ c.drainedMembers) :
    ∃ op, c.table[id]? = some op ∧ op.status.isFinal = true := by
  obtain ⟨graph, queued, isDrained, member⟩ := mem_drainedMembers.mp drained
  obtain ⟨op, held⟩ := filed.live queued member
  exact ⟨op, held, isDrained_iff.mp isDrained id member op held⟩

theorem mem_pruned_graphs :
    graph ∈ c.prune.2.queue.graphs ↔ graph ∈ c.queue.graphs ∧ c.isDrained graph = false := by
  rw [pruned_graphs, List.mem_filter, Bool.not_eq_true']

theorem Filed.prune (filed : c.Filed) : c.prune.2.Filed where
  distinct := by
    rw [pruned_graphs]
    exact (List.filter_sublist.flatMap _).nodup filed.distinct
  listed id := by
    rw [mem_table]
    constructor
    · rintro ⟨op, held⟩
      obtain ⟨graph, queued, member, -⟩ := filed.graph_of (held_of_pruned held)
      refine ⟨graph, mem_pruned_graphs.mpr ⟨queued, ?_⟩, member⟩
      rw [lookup_pruned] at held
      split at held
      · cases held
      · rename_i notDrained
        rw [mem_drainedMembers] at notDrained
        exact Bool.eq_false_iff.mpr fun isDrained => notDrained ⟨graph, queued, isDrained, member⟩
    · rintro ⟨graph, kept, member⟩
      obtain ⟨queued, notDrained⟩ := mem_pruned_graphs.mp kept
      obtain ⟨op, held⟩ := filed.live queued member
      refine ⟨op, ?_⟩
      rw [lookup_pruned, if_neg, held]
      intro drained
      obtain ⟨other, otherQueued, isDrained, otherMember⟩ := mem_drainedMembers.mp drained
      rw [filed.same_graph queued otherQueued member otherMember, isDrained] at notDrained
      cases notDrained
  keyed id op held := filed.keyed id op (held_of_pruned held)
  owner id op held := by
    rw [pruned_names]
    exact filed.owner id op (held_of_pruned held)
  snapshot graph kept id member op held :=
    filed.snapshot graph (mem_pruned_graphs.mp kept).1 id member op (held_of_pruned held)
  ascending := by
    rw [pruned_graphs]
    exact filed.ascending.sublist List.filter_sublist
  accepted graph kept := by
    rw [pruned_latest]
    exact filed.accepted graph (mem_pruned_graphs.mp kept).1

/-! ### Starting operations -/

/-- Marks operations as started, in their order. -/
def startAll (c : Core) (operations : List Operation) : Core := operations.foldl start c

theorem startAll_eq (operations : List Operation) (c : Core) : c.startAll operations = { c with
    table := enlist c.table operations
    active := (c.startAll operations).active } := by
  induction operations generalizing c with
  | nil => rfl
  | cons first rest ih => exact (ih (c.start first)).trans rfl

theorem mem_active_startAll {operations : List Operation} :
    id ∈ (c.startAll operations).active ↔ id ∈ operations.map (·.id) ∨ id ∈ c.active := by
  induction operations generalizing c with
  | nil => simp [startAll]
  | cons first rest ih =>
    rw [startAll, List.foldl_cons]
    refine ih.trans ?_
    simp only [start, Std.ExtTreeSet.mem_insert, List.map_cons, List.mem_cons]
    grind

/-- The operations that a pass over a core may start, in dispatch order and as they are handed
out. -/
structure Dispatches (c : Core) (now : Instant) (operations : List Operation) : Prop where
  offered : (operations.map (·.id)).Sublist (c.ready now)
  bounded : operations.length ≤ c.freeSlots
  started : ∀ op ∈ operations, ∃ waiting, c.table[op.id]? = some waiting ∧
    op = { waiting with status := .active }

section Dispatches
variable {now : Instant} {operations : List Operation}

theorem Dispatches.distinct (dispatches : c.Dispatches now operations) (filed : c.Filed) :
    (operations.map (·.id)).Nodup := dispatches.offered.nodup filed.ready_nodup

/-- What a pass starts was ready. -/
theorem Dispatches.ready (dispatches : c.Dispatches now operations) (member : op ∈ operations) :
    ∃ graph ∈ c.readiness.candidates, op.id ∈ graph.members ∧ ∃ waiting,
      c.table[op.id]? = some waiting ∧ c.readiness.isReady waiting now = true ∧
        op = { waiting with status := .active } := by
  obtain ⟨waiting, held, handedOut⟩ := dispatches.started op member
  obtain ⟨graph, candidate, listed, other, found, isReady⟩ :=
    Readiness.mem_ready.mp (dispatches.offered.subset (List.mem_map_of_mem member))
  cases held.symm.trans found
  exact ⟨graph, candidate, listed, waiting, held, isReady, handedOut⟩

theorem Dispatches.not_started (dispatches : c.Dispatches now operations)
    (held : c.table[id]? = some op) (begun : op.status ≠ .pending) :
    id ∉ operations.map (·.id) := by
  intro member
  obtain ⟨waiting, found, pending⟩ :=
    Readiness.pending_of_ready (dispatches.offered.subset member)
  cases held.symm.trans found
  exact begun pending

theorem lookup_started (dispatches : c.Dispatches now operations) (filed : c.Filed)
    (member : op ∈ operations) : (c.startAll operations).table[op.id]? = some op := by
  rw [startAll_eq]
  exact lookup_enlist_member (dispatches.distinct filed) member

theorem lookup_not_started (absent : id ∉ operations.map (·.id)) :
    (c.startAll operations).table[id]? = c.table[id]? := by
  rw [startAll_eq]
  exact lookup_enlist_other absent

theorem startAll_continues (dispatches : c.Dispatches now operations) (filed : c.Filed) :
    c.table.Continues (c.startAll operations).table := by
  intro id
  by_cases member : id ∈ operations.map (·.id)
  · obtain ⟨op, listed, rfl⟩ := List.mem_map.mp member
    obtain ⟨waiting, held, handedOut⟩ := dispatches.started op listed
    rw [lookup_started dispatches filed listed, held]
    exact .some (Operation.continues_of_eq handedOut)
  · rw [lookup_not_started member]
    exact Table.Continues.refl _ id

end Dispatches

/-! ### A whole call -/

/-- What the end of a call makes of a core, given the operations that it starts. -/
def settled (c : Core) (operations : List Operation) : Core :=
  (c.prune.2.startAll operations).noteActivity.2

/-- The events of a call whose change brought the given ones. -/
def settledEvents (c : Core) (events : EventSet) (operations : List Operation) : EventSet :=
  { events with
    queueChanged := events.queueChanged || c.prune.1 || !operations.isEmpty
    activeStatusChanged := (c.prune.2.startAll operations).noteActivity.1 }

@[simp] theorem settled_names (c : Core) (operations : List Operation) :
    (c.settled operations).names = c.names := by
  rw [settled, noteActivity, startAll_eq]
  exact pruned_names c

@[simp] theorem settled_algorithm (c : Core) (operations : List Operation) :
    (c.settled operations).algorithm = c.algorithm := by
  rw [settled, noteActivity, startAll_eq]
  exact pruned_algorithm c

@[simp] theorem settled_limit (c : Core) (operations : List Operation) :
    (c.settled operations).limit = c.limit := by
  rw [settled, noteActivity, startAll_eq]
  exact pruned_limit c

@[simp] theorem settled_suspendCount (c : Core) (operations : List Operation) :
    (c.settled operations).suspendCount = c.suspendCount := by
  rw [settled, noteActivity, startAll_eq]
  exact pruned_suspendCount c

theorem settled_queue (c : Core) (operations : List Operation) :
    (c.settled operations).queue = c.prune.2.queue := by
  rw [settled, noteActivity, startAll_eq]

theorem Filed.settle {now : Instant} {operations : List Operation} (filed : c.Filed)
    (dispatches : c.prune.2.Dispatches now operations) : (c.settled operations).Filed :=
  filed.prune.of_continues (by simp) (by rw [settled_queue]) (by rw [settled_queue])
    (startAll_continues dispatches filed.prune)

/-- What is live after a call is live without those that it took out. -/
theorem mem_settled_table {now : Instant} {operations : List Operation} {id : OperationId}
    (filed : c.Filed) (dispatches : c.prune.2.Dispatches now operations) :
    id ∈ (c.settled operations).table ↔ id ∈ c.table ∧ id ∉ c.drainedMembers := by
  have started : id ∈ (c.settled operations).table ↔ id ∈ c.prune.2.table :=
    (startAll_continues dispatches filed.prune).mem_iff
  rw [started, mem_pruned_table]

/-- The ways in which a pipeline answers a request: the answer and the core that it leaves. -/
inductive Answers (c : Core) (now : Instant) (request : Request) :
    Except Error Step → Core → Prop where
  /-- The request does not fit, or the store refuses the write. -/
  | rejected (error : Error) : Answers c now request (.error error) c
  /-- What is asked for is the case already. -/
  | idle (idle : c.changeFor now request = .ok none) : Answers c now request (.ok .empty) c
  | accepted {change : Change} {operations : List Operation}
      (admitted : c.Admits now request change)
      (dispatches : change.core.prune.2.Dispatches now operations) :
      Answers c now request
        (.ok ⟨operations, change.core.settledEvents change.events operations⟩)
        (change.core.settled operations)

theorem Answers.filed {now : Instant} {request : Request} {answer : Except Error Step}
    {after : Core} (answers : c.Answers now request answer after) (filed : c.Filed) : after.Filed := by
  cases answers with
  | rejected | idle => exact filed
  | accepted admitted dispatches => exact (filed.admitted admitted).settle dispatches

end Core

namespace Engine
variable {σ : Type} [OperationStore σ]

/-- What holds before a pass holds after it, if it outlasts each of the writes: one that is refused,
and one that is accepted, together with the start that it is made for. -/
theorem start_preserves {P : Engine σ → Prop} (e : Engine σ) (free : Nat) {ids : List OperationId}
    (refused : ∀ (e : Engine σ) (error : Error) (store : σ), ∀ id ∈ ids,
      OperationStore.perform e.store (.status id .active) = (.error error, store) → P e →
        P { e with store })
    (accepted : ∀ (e : Engine σ) (store : σ), ∀ id ∈ ids,
      OperationStore.perform e.store (.status id .active) = (.ok (), store) → P e →
        (e.core.table[id]? = none → P { e with store }) ∧
        ∀ op, e.core.table[id]? = some op → P ⟨e.core.start { op with status := .active }, store⟩)
    (holds : P e) : P (e.start ids free).2 := by
  induction ids generalizing e free with
  | nil =>
    rw [start]
    exact holds
  | cons id rest ih =>
    have later (e : Engine σ) (free : Nat) (holds : P e) : P (e.start rest free).2 :=
      ih e free (fun e error store other member =>
          refused e error store other (List.mem_cons_of_mem id member))
        (fun e store other member => accepted e store other (List.mem_cons_of_mem id member)) holds
    cases free with
    | zero =>
      rw [start]
      exact holds
    | succ free =>
      rw [start]
      cases performed : OperationStore.perform e.store (.status id .active) with
      | mk answer store =>
        cases answer with
        | error error =>
          exact later _ _ (refused e error store id List.mem_cons_self performed holds)
        | ok done =>
          obtain ⟨unknown, started⟩ := accepted e store id List.mem_cons_self performed holds
          cases held : e.core.table[id]? with
          | none => exact later _ _ (unknown held)
          | some op => exact later _ _ (started op held)

/-- Whichever writes the store refuses, the operations that are started are some of those offered,
no more than there are slots. -/
theorem start_dispatches (e : Engine σ) (free : Nat) {ids : List OperationId} (distinct : ids.Nodup)
    (keyed : e.core.table.Keyed) :
    ((e.start ids free).1.map (·.id)).Sublist ids ∧ (e.start ids free).1.length ≤ free ∧
      (∀ op ∈ (e.start ids free).1, ∃ waiting, e.core.table[op.id]? = some waiting ∧
        op = { waiting with status := .active }) ∧
      (e.start ids free).2.core = e.core.startAll (e.start ids free).1 := by
  induction ids generalizing e free with
  | nil =>
    rw [start]
    exact ⟨.slnil, Nat.zero_le _, List.forall_mem_nil _, rfl⟩
  | cons id rest ih =>
    obtain ⟨absent, distinctRest⟩ := List.nodup_cons.mp distinct
    cases free with
    | zero =>
      rw [start]
      exact ⟨List.nil_sublist _, Nat.le_refl _, List.forall_mem_nil _, rfl⟩
    | succ free =>
      rw [start]
      cases OperationStore.perform e.store (.status id .active) with
      | mk answer store =>
        have passedOver := ih { e with store } (free + 1) distinctRest keyed
        cases answer with
        | error error => exact ⟨passedOver.1.cons id, passedOver.2⟩
        | ok done =>
          cases held : e.core.table[id]? with
          | none => exact ⟨passedOver.1.cons id, passedOver.2⟩
          | some waiting =>
            have named := keyed id waiting held
            obtain ⟨offered, bounded, started, left⟩ := ih
              ⟨e.core.start { waiting with status := .active }, store⟩ free distinctRest
              keyed.insert
            refine ⟨named ▸ offered.cons_cons waiting.id, Nat.succ_le_succ bounded, ?_, left⟩
            rintro op (_ | ⟨_, later⟩)
            · exact ⟨waiting, named ▸ held, rfl⟩
            · obtain ⟨other, found, handedOut⟩ := started op later
              have different : waiting.id ≠ op.id := fun same =>
                absent (named ▸ same ▸ offered.subset (List.mem_map_of_mem later))
              rw [Core.start, lookup_insert, if_neg different] at found
              exact ⟨other, found, handedOut⟩

/-- A pass starts operations that are ready, and nothing else happens to the core. -/
theorem dispatch_dispatches (e : Engine σ) (now : Instant) (filed : e.core.Filed) :
    e.core.Dispatches now (e.dispatch now).1 ∧
      (e.dispatch now).2.core = e.core.startAll (e.dispatch now).1 := by
  rw [dispatch]
  split
  · exact ⟨⟨List.nil_sublist _, Nat.zero_le _, List.forall_mem_nil _⟩, rfl⟩
  · obtain ⟨offered, bounded, started, left⟩ :=
      e.start_dispatches e.core.freeSlots filed.ready_nodup filed.keyed
    exact ⟨⟨offered, bounded, started⟩, left⟩

section Apply
variable {e after : Engine σ} {now : Instant} {request : Request} {change : Change} {error : Error}
  {store : σ} {write : Write}

theorem store_of_silent (wrote : e.write none = (.ok (), { e with store })) : store = e.store :=
  (congrArg (fun written => written.2.store) wrote).symm

theorem perform_of_wrote (wrote : e.write (some write) = (.ok (), { e with store })) :
    OperationStore.perform e.store write = (.ok (), store) := by
  have answered := congrArg Prod.fst wrote
  have left := congrArg (fun written => written.2.store) wrote
  exact Prod.ext answered left

/-! A request does not fit, or asks for what is the case, or has its write refused, or is carried
out. -/

theorem apply_error (decided : e.core.changeFor now request = .error error) :
    e.apply now request = (.error error, e) := by
  simp only [apply, decided]

theorem apply_idle (decided : e.core.changeFor now request = .ok none) :
    e.apply now request = (.ok .empty, e) := by
  simp only [apply, decided]

theorem apply_refused (decided : e.core.changeFor now request = .ok (some change))
    (refused : e.write change.write = (.error error, after)) :
    e.apply now request = (.error error, after) := by
  simp only [apply, decided, refused]

theorem apply_done (decided : e.core.changeFor now request = .ok (some change))
    (wrote : e.write change.write = (.ok (), after)) :
    e.apply now request =
      (.ok (finish { after with core := change.core } now change.events).1,
        (finish { after with core := change.core } now change.events).2) := by
  simp only [apply, decided, wrote]

end Apply

/-- Every call ends in one of three ways. -/
theorem apply_answers (e : Engine σ) (now : Instant) (request : Request) (filed : e.core.Filed) :
    e.core.Answers now request (e.apply now request).1 (e.apply now request).2.core := by
  cases decided : e.core.changeFor now request with
  | error error =>
    rw [apply_error decided]
    exact .rejected error
  | ok found =>
    cases found with
    | none =>
      rw [apply_idle decided]
      exact .idle decided
    | some change =>
      have admitted := Core.admits_of_changeFor decided
      have wrote : (e.write change.write).2.core = e.core := by
        cases change.write <;> rfl
      cases written : e.write change.write with
      | mk answer after =>
        rw [written] at wrote
        cases answer with
        | error error =>
          rw [apply_refused decided written]
          exact wrote ▸ .rejected error
        | ok done =>
          rw [apply_done decided written]
          obtain ⟨dispatches, left⟩ := dispatch_dispatches
            { after with core := change.core.prune.2 } now (filed.admitted admitted).prune
          have accepted := Core.Answers.accepted admitted dispatches
          rw [Core.settled, Core.settledEvents, ← left] at accepted
          exact accepted

end Engine
end CommitPipeline
