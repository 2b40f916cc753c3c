import CommitPipeline.Proofs.History

/-! Who has a slot. A pass takes a slot for each operation that it starts, as far as the limit goes.
A request takes none, and gives back that of the operation whose outcome it reports. An operation
that was activated from outside runs without a slot until it is given back and started anew. -/
namespace CommitPipeline

/-- The operation that a request reports on: it is completed, skipped or given back. -/
def Request.outcome? : Request → Option OperationId
  | .complete id | .skip id | .reset id _ => some id
  | _ => none

/-- The limit that a request asks for. -/
def Request.limit? : Request → Option Nat
  | .setLimit limit => some limit
  | _ => none

/-- The operation that a call reported on. -/
def Entry.outcome? (entry : Entry) : Option OperationId := entry.accepted?.bind (·.outcome?)

theorem Entry.outcome?_eq_some {c : Core} {now : Instant} {request : Request}
    {answer : Except Error Step} {id : OperationId}
    (reported : Entry.outcome? ⟨c, .request now request, answer⟩ = some id) :
    request.outcome? = some id := by
  cases answer with
  | error => cases reported
  | ok => exact reported

namespace Core
variable {c after : Core} {id : OperationId} {op : Operation} {now : Instant} {request : Request}
  {change : Change} {operations : List Operation} {answer : Except Error Step}

/-! ### One request -/

theorem Admits.mem_active (admitted : c.Admits now request change) :
    id ∈ change.core.active ↔ id ∈ c.active ∧ request.outcome? ≠ some id := by
  cases admitted with
  | complete | skip | reset =>
    refine Std.ExtTreeSet.mem_erase.trans ?_
    simp [Request.outcome?, and_comm]
  | append | restore | forceActive | setHold | setLimit | suspend | resume | dispatch =>
    exact ⟨fun member => ⟨member, nofun⟩, And.left⟩

theorem Admits.active_size_le (admitted : c.Admits now request change) :
    change.core.active.size ≤ c.active.size := by
  cases admitted with
  | complete | skip | reset => exact Std.ExtTreeSet.size_erase_le
  | append | restore | forceActive | setHold | setLimit | suspend | resume | dispatch =>
    exact Nat.le_refl _

theorem Admits.limit_le (admitted : c.Admits now request change)
    (raised : ∀ limit ∈ request.limit?, c.limit ≤ limit) : c.limit ≤ change.core.limit := by
  cases admitted with
  | @setLimit limit => exact raised limit rfl
  | append | restore | complete | skip | reset | forceActive | setHold | suspend | resume
  | dispatch => exact Nat.le_refl _

theorem idle_outcome (idle : c.changeFor now request = .ok none) : request.outcome? = none := by
  cases request with
  | complete | skip | reset =>
    obtain ⟨_, -, done⟩ := except_bind_ok.mp idle
    cases done
  | append | restore | forceActive | setHold | setLimit | suspend | resume | dispatch => rfl

theorem active_size_startAll (c : Core) (operations : List Operation) :
    (c.startAll operations).active.size ≤ c.active.size + operations.length := by
  induction operations generalizing c with
  | nil => exact Nat.le_refl _
  | cons first rest ih =>
    have step : (c.start first).active.size ≤ c.active.size + 1 := Std.ExtTreeSet.size_insert_le
    calc (c.startAll (first :: rest)).active.size
        ≤ (c.start first).active.size + rest.length := ih (c.start first)
      _ ≤ c.active.size + (first :: rest).length := by
        rw [List.length_cons]
        omega

theorem Dispatches.length_le (dispatches : c.Dispatches now operations) :
    operations.length ≤ c.limit - c.active.size := by
  have slots := dispatches.bounded
  rw [freeSlots] at slots
  split at slots <;> omega

/-- What the end of a call starts had no slot. -/
theorem Tracked.not_started (tracked : c.Tracked)
    (dispatches : c.prune.2.Dispatches now operations) (member : id ∈ c.active) :
    id ∉ operations.map (·.id) := by
  obtain ⟨running, held, isActive⟩ := tracked.handedOut id member
  have kept := unfinished_kept held (by rw [isActive]; rfl)
  exact dispatches.not_started kept (by rw [isActive]; exact nofun)

/-- Operations that have no slot take one each. -/
theorem active_size_startAll_of_new (distinct : (operations.map (·.id)).Nodup)
    (new : ∀ id ∈ operations.map (·.id), id ∉ c.active) :
    (c.startAll operations).active.size = c.active.size + operations.length := by
  induction operations generalizing c with
  | nil => rfl
  | cons first rest ih =>
    obtain ⟨absent, distinct⟩ := List.nodup_cons.mp distinct
    obtain ⟨firstNew, new⟩ := List.forall_mem_cons.mp new
    have step : (c.start first).active.size = c.active.size + 1 := by
      rw [start, Std.ExtTreeSet.size_insert, if_neg (by simpa using firstNew)]
    have restNew : ∀ id ∈ rest.map (·.id), id ∉ (c.start first).active := by
      intro id member taken
      rcases Std.ExtTreeSet.mem_insert.mp taken with same | taken
      · obtain rfl : first.id = id := by simpa using same
        exact absent member
      · exact new id member taken
    calc (c.startAll (first :: rest)).active.size
        = (c.start first).active.size + rest.length := ih distinct restNew
      _ = c.active.size + (first :: rest).length := by
        rw [step, List.length_cons]
        omega

theorem active_size_settled (tracked : c.Tracked) (filed : c.Filed)
    (dispatches : c.prune.2.Dispatches now operations) :
    (c.settled operations).active.size = c.active.size + operations.length := by
  rw [← pruned_active c]
  refine active_size_startAll_of_new (dispatches.distinct filed.prune) fun id started member => ?_
  rw [pruned_active] at member
  exact tracked.not_started dispatches member started

/-! ### A whole call -/

/-- What a call starts has a slot, and what had one keeps it unless the call reports on it. -/
theorem Answers.mem_active (answers : c.Answers now request answer after) :
    id ∈ after.active ↔
      id ∈ (Entry.dispatched ⟨c, .request now request, answer⟩).map (·.id) ∨
        id ∈ c.active ∧ Entry.outcome? ⟨c, .request now request, answer⟩ ≠ some id := by
  cases answers with
  | rejected => simp [Entry.dispatched, Entry.outcome?, Entry.accepted?]
  | idle idle =>
    simp [Entry.dispatched, Entry.outcome?, Entry.accepted?, Step.empty, idle_outcome idle]
  | accepted admitted dispatches =>
    rw [settled_active, admitted.mem_active]
    rfl

/-- What a call starts had no slot, unless the same call reports on it. -/
theorem Answers.outcome_of_started (answers : c.Answers now request answer after)
    (filed : c.Filed) (tracked : c.Tracked)
    (started : id ∈ (Entry.dispatched ⟨c, .request now request, answer⟩).map (·.id))
    (member : id ∈ c.active) :
    Entry.outcome? ⟨c, .request now request, answer⟩ = some id := by
  cases answers with
  | rejected | idle => cases started
  | @accepted change operations admitted dispatches =>
    by_contra noOutcome
    have kept := admitted.mem_active.mpr ⟨member, noOutcome⟩
    exact (tracked.admitted filed admitted).not_started dispatches kept started

theorem Answers.started_nodup (answers : c.Answers now request answer after) (filed : c.Filed) :
    ((Entry.dispatched ⟨c, .request now request, answer⟩).map (·.id)).Nodup := by
  cases answers with
  | rejected | idle => exact List.nodup_nil
  | accepted admitted dispatches => exact dispatches.distinct (filed.admitted admitted).prune

/-- A limit that is never lowered is kept. -/
theorem Answers.active_size_le (answers : c.Answers now request answer after)
    (raised : ∀ limit ∈ request.limit?, c.limit ≤ limit) (within : c.active.size ≤ c.limit) :
    after.active.size ≤ after.limit := by
  cases answers with
  | rejected | idle => exact within
  | @accepted change operations admitted dispatches =>
    have kept : change.core.prune.2.active.size ≤ change.core.limit := by
      rw [pruned_active]
      have released := admitted.active_size_le
      have grown := admitted.limit_le raised
      omega
    have started := active_size_startAll change.core.prune.2 operations
    have bounded := dispatches.length_le
    rw [pruned_limit] at bounded
    rw [settled_limit]
    change (change.core.prune.2.startAll operations).active.size ≤ _
    omega

/-! ### Without a slot -/

/-- An operation runs without a slot: it was activated from outside. -/
def RunsOutside (c : Core) (id : OperationId) : Prop :=
  id ∉ c.active ∧ ∃ op, c.table[id]? = some op ∧ op.status = .active

private theorem batch_runs {queue : Queue} {snapshot : Nat} {edges : List Edge} (filed : c.Filed)
    (fits : c.BatchFits queue snapshot operations edges) (held : c.table[id]? = some op)
    (running : op.status = .active) :
    ∃ later, (c.queueBatch queue snapshot operations edges).core.table[id]? = some later ∧
      later.status = .active := by
  refine ⟨withEdges edges op, ?_, (withEdges_status edges op).trans running⟩
  rw [lookup_batch_other filed (fits.absent held), held, Option.map_some]

private theorem modify_runs {target : OperationId} {f : Operation → Operation}
    (held : c.table[id]? = some op) (running : op.status = .active)
    (kept : target = id → (f op).status = .active) :
    ∃ later, (c.table.modify target f)[id]? = some later ∧ later.status = .active := by
  rw [lookup_modify, held]
  by_cases about : target = id
  · exact ⟨f op, if_pos about, kept about⟩
  · exact ⟨op, if_neg about, running⟩

/-- Unless a request reports on it, an operation runs on without a slot. -/
theorem Admits.runsOutside (admitted : c.Admits now request change) (filed : c.Filed)
    (runs : c.RunsOutside id) (noOutcome : request.outcome? ≠ some id) :
    change.core.RunsOutside id := by
  obtain ⟨noSlot, op, held, running⟩ := runs
  refine ⟨fun member => noSlot (admitted.mem_active.mp member).1, ?_⟩
  cases admitted with
  | append pushed distinct fresh fit =>
    exact batch_runs filed (append_fits pushed distinct fresh fit) held running
  | restore pushed distinct fresh =>
    exact batch_runs filed (restore_fits pushed distinct fresh) held running
  | complete | skip | reset =>
    exact modify_runs held running fun same => (noOutcome (congrArg some same)).elim
  | forceActive => exact modify_runs held running fun _ => rfl
  | setHold => exact modify_runs held running fun _ => running
  | setLimit | suspend | resume | dispatch => exact ⟨op, held, running⟩

theorem Admits.forced (admitted : c.Admits now (.forceActive id) change) (tracked : c.Tracked) :
    change.core.RunsOutside id := by
  cases admitted with
  | @forceActive _ op held waiting first =>
    refine ⟨fun member => ?_, { op with status := .active }, ?_, rfl⟩
    · obtain ⟨running, found, isActive⟩ := tracked.handedOut id member
      cases held.symm.trans found
      rw [waiting] at isActive
      cases isActive
    · rw [lookup_modify, if_pos rfl, held, Option.map_some]

/-- A pass does not start what runs without a slot. -/
theorem RunsOutside.settle (runs : c.RunsOutside id)
    (dispatches : c.prune.2.Dispatches now operations) :
    (c.settled operations).RunsOutside id ∧ id ∉ operations.map (·.id) := by
  obtain ⟨noSlot, op, held, running⟩ := runs
  have kept := unfinished_kept held (by rw [running]; rfl)
  have notStarted := dispatches.not_started kept (by rw [running]; exact nofun)
  refine ⟨⟨fun member => ?_, op, (lookup_not_started notStarted).trans kept, running⟩, notStarted⟩
  exact ((settled_active c operations).mp member).elim notStarted noSlot

theorem Answers.runsOutside (answers : c.Answers now request answer after) (filed : c.Filed)
    (runs : c.RunsOutside id)
    (noOutcome : Entry.outcome? ⟨c, .request now request, answer⟩ ≠ some id) :
    after.RunsOutside id ∧
      id ∉ (Entry.dispatched ⟨c, .request now request, answer⟩).map (·.id) := by
  cases answers with
  | rejected | idle => exact ⟨runs, List.not_mem_nil⟩
  | accepted admitted dispatches =>
    exact (admitted.runsOutside filed runs noOutcome).settle dispatches

/-- What is activated from outside runs without a slot, and the call does not start it. -/
theorem Answers.forced (answers : c.Answers now request answer after) (tracked : c.Tracked)
    (accepted : Entry.accepted? ⟨c, .request now request, answer⟩ = some (.forceActive id)) :
    after.RunsOutside id ∧
      id ∉ (Entry.dispatched ⟨c, .request now request, answer⟩).map (·.id) := by
  cases answers with
  | rejected => cases accepted
  | idle idle =>
    cases accepted
    obtain ⟨_, -, done⟩ := except_bind_ok.mp idle
    cases done
  | accepted admitted dispatches =>
    cases accepted
    exact (admitted.forced tracked).settle dispatches

end Core
end CommitPipeline
