import CommitPipeline.Proofs.Pass

/-! Who runs and who is through. Requests and passes are followed one operation at a time: an
operation that is not final stays until a request finalizes it, and the active set, the recovered
set and the statuses in the table agree all the while. -/
namespace CommitPipeline

namespace Core
variable {c : Core} {id : OperationId} {op : Operation} {graph : Graph} {now : Instant}
  {request : Request} {change : Change} {operations : List Operation}

/-- Live and not final. -/
def Unfinished (c : Core) (id : OperationId) : Prop :=
  ∃ op, c.table[id]? = some op ∧ op.status.isFinal = false

/-! ### From before a request to after it -/

private theorem modify_forward {target : OperationId} {f : Operation → Operation}
    {through : Option OperationId} (held : c.table[id]? = some op)
    (continued : ∀ op : Operation, op.Continues (f op))
    (final : target = id →
      ((f op).status.isFinal = true ↔ op.status.isFinal = true ∨ through = some id))
    (others : target ≠ id → through ≠ some id) :
    ∃ later, (c.table.modify target f)[id]? = some later ∧ op.Continues later ∧
      (later.status.isFinal = true ↔ op.status.isFinal = true ∨ through = some id) := by
  rw [lookup_modify, held]
  by_cases about : target = id
  · exact ⟨f op, if_pos about, continued op, final about⟩
  · exact ⟨op, if_neg about, .refl op, by simp [others about]⟩

private theorem batch_forward {queue : Queue} {snapshot : Nat} {edges : List Edge}
    (filed : c.Filed) (fits : c.BatchFits queue snapshot operations edges)
    (answers : c.BatchAnswers request snapshot operations edges) (held : c.table[id]? = some op) :
    ∃ later, (c.queueBatch queue snapshot operations edges).core.table[id]? = some later ∧
      op.Continues later ∧
      (later.status.isFinal = true ↔ op.status.isFinal = true ∨ request.finalized? = some id) := by
  refine ⟨withEdges edges op, ?_, withEdges_continues edges op, ?_⟩
  · rw [lookup_batch_other filed (fits.absent held), held, Option.map_some]
  · simp [answers.final]

/-- A live operation goes on, and becomes final only if the request says so. -/
theorem Admits.forward (filed : c.Filed) (admitted : c.Admits now request change)
    (held : c.table[id]? = some op) :
    ∃ later, change.core.table[id]? = some later ∧ op.Continues later ∧
      (later.status.isFinal = true ↔ op.status.isFinal = true ∨ request.finalized? = some id) := by
  cases admitted with
  | append pushed distinct fresh fit =>
    exact batch_forward filed (append_fits pushed distinct fresh fit) append_answers held
  | restore pushed distinct fresh =>
    exact batch_forward filed (restore_fits pushed distinct fresh) restore_answers held
  | complete found running =>
    refine modify_forward held (fun _ => Operation.continues_of_eq rfl) (fun same => ?_) ?_
    · simp [Request.finalized?, same, Status.isFinal]
    · simp [Request.finalized?]
  | skip found unfinished =>
    refine modify_forward held (fun _ => Operation.continues_of_eq rfl) (fun same => ?_) ?_
    · simp [Request.finalized?, same, Status.isFinal]
    · simp [Request.finalized?]
  | reset found running =>
    refine modify_forward held (fun _ => Operation.continues_of_eq rfl) (fun same => ?_) nofun
    cases (same ▸ found).symm.trans held
    simp [Request.finalized?, running, Status.isFinal]
  | forceActive found waiting =>
    refine modify_forward held (fun _ => Operation.continues_of_eq rfl) (fun same => ?_) nofun
    cases (same ▸ found).symm.trans held
    simp [Request.finalized?, waiting, Status.isFinal]
  | setHold =>
    refine modify_forward held (fun _ => Operation.continues_of_eq rfl) (fun _ => ?_) nofun
    simp [Request.finalized?]
  | setLimit | suspend | resume | dispatch =>
    exact ⟨op, held, .refl op, by simp [Request.finalized?]⟩

/-- After a request an operation is new and pending, or was live before. -/
theorem Admits.origin (filed : c.Filed) (admitted : c.Admits now request change)
    (held : change.core.table[id]? = some op) :
    (op.status = .pending ∧ id ∉ c.table) ∨ ∃ earlier, c.table[id]? = some earlier := by
  rcases admitted.cases_batch with ⟨_, _, _, _, fits, -, rfl⟩ | ⟨-, continues, -⟩
  · rcases batch_origin filed fits held with ⟨member, rfl⟩ | ⟨-, earlier, found, -⟩
    · exact .inl ⟨(fits.stamped op member).2.2, fits.fresh op member⟩
    · exact .inr ⟨earlier, found⟩
  · obtain ⟨earlier, found, -⟩ := continues.backward held
    exact .inr ⟨earlier, found⟩

/-! ### From before a pass to after it -/

/-- After a pass an operation was started, and had been pending, or is as it was. -/
theorem startAll_origin (filed : c.Filed) (dispatches : c.Dispatches now operations)
    (held : (c.startAll operations).table[id]? = some op) :
    (id ∈ operations.map (·.id) ∧ ∃ waiting, c.table[id]? = some waiting ∧
      waiting.status = .pending ∧ op = { waiting with status := .active }) ∨
    (id ∉ operations.map (·.id) ∧ c.table[id]? = some op) := by
  by_cases member : id ∈ operations.map (·.id)
  · obtain ⟨one, listed, rfl⟩ := List.mem_map.mp member
    obtain ⟨-, -, -, waiting, found, isReady, handedOut⟩ := dispatches.ready listed
    rw [lookup_started dispatches filed listed] at held
    cases held
    exact .inl ⟨member, waiting, found, (Readiness.isReady_iff.mp isReady).1, handedOut⟩
  · exact .inr ⟨member, lookup_not_started member ▸ held⟩

/-- A pass neither finishes an operation nor takes it up again. -/
theorem startAll_final (filed : c.Filed) (dispatches : c.Dispatches now operations)
    (held : (c.startAll operations).table[id]? = some op) :
    ∃ earlier, c.table[id]? = some earlier ∧ earlier.Continues op ∧
      op.status.isFinal = earlier.status.isFinal := by
  rcases startAll_origin filed dispatches held with ⟨-, waiting, found, pending, rfl⟩ | ⟨-, found⟩
  · exact ⟨waiting, found, Operation.continues_of_eq rfl, by rw [pending]; rfl⟩
  · exact ⟨op, found, .refl op, rfl⟩

/-- What was final before a pass is untouched by it. -/
theorem final_kept (dispatches : c.Dispatches now operations)
    (held : c.table[id]? = some op) (final : op.status.isFinal = true) :
    (c.startAll operations).table[id]? = some op := by
  rw [lookup_not_started (dispatches.not_started held ?_), held]
  intro pending
  rw [pending] at final
  cases final

theorem settled_origin (filed : c.Filed) (dispatches : c.prune.2.Dispatches now operations)
    (held : (c.settled operations).table[id]? = some op) :
    ∃ earlier, c.table[id]? = some earlier ∧ earlier.Continues op ∧
      op.status.isFinal = earlier.status.isFinal := by
  obtain ⟨earlier, found, kept⟩ := startAll_final filed.prune dispatches held
  exact ⟨earlier, held_of_pruned found, kept⟩

/-- What is not final outlasts the end of a call. -/
theorem settled_forward (filed : c.Filed) (dispatches : c.prune.2.Dispatches now operations)
    (held : c.table[id]? = some op) (unfinished : op.status.isFinal = false) :
    ∃ later, (c.settled operations).table[id]? = some later ∧ op.Continues later ∧
      later.status.isFinal = false := by
  obtain ⟨later, found, continues⟩ :=
    (startAll_continues dispatches filed.prune).forward (unfinished_kept held unfinished)
  obtain ⟨earlier, before, -, same⟩ := startAll_final filed.prune dispatches found
  cases before.symm.trans (unfinished_kept held unfinished)
  exact ⟨later, found, continues, same.trans unfinished⟩

theorem unfinished_settled (filed : c.Filed) (dispatches : c.prune.2.Dispatches now operations) :
    (c.settled operations).Unfinished id ↔ c.Unfinished id := by
  constructor
  · rintro ⟨op, held, unfinished⟩
    obtain ⟨earlier, found, -, same⟩ := settled_origin filed dispatches held
    exact ⟨earlier, found, same ▸ unfinished⟩
  · rintro ⟨op, held, unfinished⟩
    obtain ⟨later, found, -, still⟩ := settled_forward filed dispatches held unfinished
    exact ⟨later, found, still⟩

theorem mem_settled_graphs : graph ∈ (c.settled operations).queue.graphs ↔
    graph ∈ c.queue.graphs ∧ ∃ id ∈ graph.members, c.Unfinished id := by
  rw [settled_queue, mem_pruned_graphs, Bool.eq_false_iff, Ne, isDrained_iff]
  simp only [Unfinished, not_forall, Bool.not_eq_true, exists_prop]

/-- No call ends with a drained graph in the queue. -/
def Busy (c : Core) : Prop := ∀ graph ∈ c.queue.graphs, ∃ id ∈ graph.members, c.Unfinished id

theorem Filed.busy_settled (filed : c.Filed)
    (dispatches : c.prune.2.Dispatches now operations) : (c.settled operations).Busy := by
  intro graph queued
  obtain ⟨-, id, member, unfinished⟩ := mem_settled_graphs.mp queued
  exact ⟨id, member, (unfinished_settled filed dispatches).mpr unfinished⟩

/-! ### The active and the recovered set -/

/-- The active set holds live active operations; those that are active outside of it were activated
from outside. -/
structure Tracked (c : Core) : Prop where
  handedOut : ∀ id ∈ c.active, ∃ op, c.table[id]? = some op ∧ op.status = .active
  running : ∀ (id : OperationId) (op : Operation),
    c.table[id]? = some op → op.status = .active → id ∈ c.active ∨ id ∈ c.recovered
  recovered : ∀ id ∈ c.recovered, id ∈ c.table

theorem tracked_new (names : Names) (algorithm : Algorithm) : (new names algorithm).Tracked where
  handedOut id member := by simp [new] at member
  running id op held := by simp [new] at held
  recovered id member := by simp [new] at member

/-- An operation that stops running leaves the active set. -/
theorem Tracked.release {target : OperationId} {f : Operation → Operation} (tracked : c.Tracked)
    (stopped : ∀ op, (f op).status ≠ .active) :
    { c with table := c.table.modify target f, active := c.active.erase target }.Tracked where
  handedOut id member := by
    obtain ⟨different, member⟩ := Std.ExtTreeSet.mem_erase.mp member
    obtain ⟨op, held, running⟩ := tracked.handedOut id member
    refine ⟨op, ?_, running⟩
    rw [lookup_modify, if_neg (by simpa using different), held]
  running id op held running := by
    rw [lookup_modify] at held
    split at held
    · obtain ⟨earlier, -, rfl⟩ := Option.map_eq_some_iff.mp held
      exact (stopped earlier running).elim
    · rename_i different
      exact (tracked.running id op held running).imp_left fun member =>
        Std.ExtTreeSet.mem_erase.mpr ⟨by simpa using different, member⟩
  recovered id member := by
    obtain ⟨op, held⟩ := mem_table.mp (tracked.recovered id member)
    exact mem_table.mpr (by simp only [lookup_modify, held]; split <;> simp)

/-- An operation may change and even start to run, if it is noted as recovered then. -/
theorem Tracked.modify {target : OperationId} {f : Operation → Operation} {recovered : IdSet}
    (tracked : c.Tracked) (kept : ∀ op, op.status = .active → (f op).status = .active)
    (started : ∀ op, (f op).status = .active → op.status = .active ∨ target ∈ recovered)
    (grown : ∀ id ∈ c.recovered, id ∈ recovered) (live : ∀ id ∈ recovered, id ∈ c.table) :
    { c with table := c.table.modify target f, recovered }.Tracked where
  handedOut id member := by
    obtain ⟨op, held, running⟩ := tracked.handedOut id member
    rw [lookup_modify, held]
    split
    · exact ⟨f op, rfl, kept op running⟩
    · exact ⟨op, rfl, running⟩
  running id op held running := by
    rw [lookup_modify] at held
    split at held
    · rename_i same
      obtain ⟨earlier, found, rfl⟩ := Option.map_eq_some_iff.mp held
      rcases started earlier running with before | noted
      · exact (tracked.running id earlier found before).imp_right (grown id)
      · exact .inr (same ▸ noted)
    · exact (tracked.running id op held running).imp_right (grown id)
  recovered id member := by
    obtain ⟨op, held⟩ := mem_table.mp (live id member)
    exact mem_table.mpr (by simp only [lookup_modify, held]; split <;> simp)

private theorem Tracked.batch {queue : Queue} {snapshot : Nat} {edges : List Edge}
    (tracked : c.Tracked) (filed : c.Filed)
    (fits : c.BatchFits queue snapshot operations edges) :
    (c.queueBatch queue snapshot operations edges).core.Tracked where
  handedOut id member := by
    obtain ⟨op, held, running⟩ := tracked.handedOut id member
    refine ⟨withEdges edges op, ?_, (withEdges_status edges op).trans running⟩
    rw [lookup_batch_other filed (fits.absent held), held, Option.map_some]
  running id op held running := by
    rcases batch_origin filed fits held with ⟨member, -⟩ | ⟨-, earlier, found, rfl⟩
    · rw [(fits.stamped op member).2.2] at running
      cases running
    · exact tracked.running id earlier found ((withEdges_status edges earlier).symm.trans running)
  recovered id member := by
    obtain ⟨op, held⟩ := mem_table.mp (tracked.recovered id member)
    exact mem_table.mpr ⟨_, by rw [lookup_batch_other filed (fits.absent held), held]; rfl⟩

theorem Tracked.admitted (tracked : c.Tracked) (filed : c.Filed)
    (admitted : c.Admits now request change) : change.core.Tracked := by
  cases admitted with
  | append pushed distinct fresh fit =>
    exact tracked.batch filed (append_fits pushed distinct fresh fit)
  | restore pushed distinct fresh =>
    exact tracked.batch filed (restore_fits pushed distinct fresh)
  | complete => exact tracked.release fun _ => (by decide : Status.completed ≠ .active)
  | skip => exact tracked.release fun _ => (by decide : Status.skipped ≠ .active)
  | reset => exact tracked.release fun _ => (by decide : Status.pending ≠ .active)
  | @forceActive target op found =>
    refine tracked.modify (fun _ _ => rfl) (fun _ _ => .inr Std.ExtTreeSet.mem_insert_self)
      (fun id member => Std.ExtTreeSet.mem_insert.mpr (.inr member)) fun id member => ?_
    rcases Std.ExtTreeSet.mem_insert.mp member with same | member
    · have same : target = id := by simpa using same
      exact mem_table.mpr ⟨op, same ▸ found⟩
    · exact tracked.recovered id member
  | setHold =>
    exact tracked.modify (fun _ running => running) (fun _ running => .inl running)
      (fun _ member => member) tracked.recovered
  | setLimit | suspend | resume => exact ⟨tracked.handedOut, tracked.running, tracked.recovered⟩
  | dispatch => exact tracked

theorem settled_active (c : Core) (operations : List Operation) :
    id ∈ (c.settled operations).active ↔ id ∈ operations.map (·.id) ∨ id ∈ c.active := by
  rw [← pruned_active c, ← mem_active_startAll]
  rfl

theorem settled_recovered (c : Core) (operations : List Operation) :
    id ∈ (c.settled operations).recovered ↔ id ∉ c.drainedMembers ∧ id ∈ c.recovered := by
  rw [settled, noteActivity, startAll_eq, ← mem_recovered_pruned]

theorem Tracked.settle (tracked : c.Tracked) (filed : c.Filed)
    (dispatches : c.prune.2.Dispatches now operations) : (c.settled operations).Tracked where
  handedOut id member := by
    rcases (settled_active c operations).mp member with started | member
    · obtain ⟨op, listed, rfl⟩ := List.mem_map.mp started
      obtain ⟨waiting, -, handedOut⟩ := dispatches.started op listed
      exact ⟨op, lookup_started dispatches filed.prune listed, handedOut ▸ rfl⟩
    · obtain ⟨op, held, running⟩ := tracked.handedOut id member
      have kept := unfinished_kept held (by rw [running]; rfl)
      by_cases started : id ∈ operations.map (·.id)
      · obtain ⟨op, listed, rfl⟩ := List.mem_map.mp started
        obtain ⟨waiting, -, handedOut⟩ := dispatches.started op listed
        exact ⟨op, lookup_started dispatches filed.prune listed, handedOut ▸ rfl⟩
      · exact ⟨op, (lookup_not_started started).trans kept, running⟩
  running id op held running := by
    rw [settled_active, settled_recovered]
    rcases startAll_origin filed.prune dispatches held with ⟨started, -⟩ | ⟨-, kept⟩
    · exact .inl (.inl started)
    · have notDrained : id ∉ c.drainedMembers := by
        intro drained
        rw [lookup_pruned, if_pos drained] at kept
        cases kept
      exact (tracked.running id op (held_of_pruned kept) running).imp .inr fun member =>
        ⟨notDrained, member⟩
  recovered id member := by
    obtain ⟨notDrained, member⟩ := (settled_recovered c operations).mp member
    exact (mem_settled_table filed dispatches).mpr ⟨tracked.recovered id member, notDrained⟩

theorem Answers.tracked {answer : Except Error Step} {after : Core}
    (answers : c.Answers now request answer after) (filed : c.Filed) (tracked : c.Tracked) :
    after.Tracked := by
  cases answers with
  | rejected | idle => exact tracked
  | accepted admitted dispatches =>
    exact (tracked.admitted filed admitted).settle (filed.admitted admitted) dispatches

/-! ### The order of the commits -/

/-- When graphs run one at a time, whatever is handed out stands in the oldest graph. -/
def Leading (c : Core) : Prop := c.algorithm = .commitGraph →
  ∀ id ∈ c.active, ∃ graph, c.queue.oldest? = some graph ∧ id ∈ graph.members

theorem leading_new (names : Names) (algorithm : Algorithm) : (new names algorithm).Leading := by
  intro _ id member
  simp [new] at member

/-- A request hands nothing out. -/
theorem Admits.active_subset (admitted : c.Admits now request change)
    (member : id ∈ change.core.active) : id ∈ c.active := by
  cases admitted with
  | complete | skip | reset => exact (Std.ExtTreeSet.mem_erase.mp member).2
  | append | restore | forceActive | setHold | setLimit | suspend | resume | dispatch =>
    exact member

/-- A request puts nothing in front of the graphs that are queued. -/
theorem Admits.oldest (admitted : c.Admits now request change)
    (oldest : c.queue.oldest? = some graph) : change.core.queue.oldest? = some graph := by
  rcases admitted.cases_batch with ⟨queue, _, _, _, fits, -, rfl⟩ | ⟨queue, -⟩
  · change queue.graphs.head? = some graph
    rw [batch_graphs fits, List.head?_append]
    exact Option.or_eq_some_iff.mpr (.inl oldest)
  · rw [queue, oldest]

theorem Admits.algorithm (admitted : c.Admits now request change) :
    change.core.algorithm = c.algorithm := by
  cases admitted <;> rfl

theorem Leading.admitted (leading : c.Leading) (admitted : c.Admits now request change) :
    change.core.Leading := by
  intro inOrder id member
  obtain ⟨graph, oldest, listed⟩ :=
    leading (admitted.algorithm.symm.trans inOrder) id (admitted.active_subset member)
  exact ⟨graph, admitted.oldest oldest, listed⟩

/-- The oldest graph stays the oldest as long as one of its members is not final. -/
theorem settled_oldest (oldest : c.queue.oldest? = some graph) (member : id ∈ graph.members)
    (unfinished : c.Unfinished id) : (c.settled operations).queue.oldest? = some graph := by
  obtain ⟨op, held, unfinished⟩ := unfinished
  rw [settled_queue, Queue.oldest?, pruned_graphs]
  rw [Queue.oldest?] at oldest
  obtain ⟨rest, graphs⟩ := List.head?_eq_some_iff.mp oldest
  have notDrained : c.isDrained graph = false := by
    rw [Bool.eq_false_iff, Ne, isDrained_iff]
    intro drained
    rw [drained id member op held] at unfinished
    cases unfinished
  rw [graphs, List.filter_cons_of_pos (by rw [notDrained]; rfl), List.head?_cons]

/-- When graphs run one at a time, a pass starts members of the oldest graph. -/
theorem settled_dispatched (dispatches : c.prune.2.Dispatches now operations)
    (inOrder : c.algorithm = .commitGraph) (member : op ∈ operations) :
    ∃ graph, (c.settled operations).queue.oldest? = some graph ∧ op.id ∈ graph.members := by
  obtain ⟨graph, candidate, listed, -⟩ := dispatches.ready member
  refine ⟨graph, ?_, listed⟩
  rw [settled_queue, Queue.oldest?]
  unfold Readiness.candidates at candidate
  rw [show c.prune.2.readiness.algorithm = .commitGraph from (pruned_algorithm c).trans inOrder]
    at candidate
  change graph ∈ c.prune.2.queue.graphs.take 1 at candidate
  cases graphs : c.prune.2.queue.graphs with
  | nil => simp [graphs] at candidate
  | cons first rest =>
    rw [graphs, List.take_succ_cons, List.take_zero, List.mem_singleton] at candidate
    rw [candidate, List.head?_cons]

theorem Leading.settle (leading : c.Leading) (tracked : c.Tracked)
    (dispatches : c.prune.2.Dispatches now operations) : (c.settled operations).Leading := by
  intro inOrder id member
  rw [settled_algorithm] at inOrder
  rcases (settled_active c operations).mp member with started | member
  · obtain ⟨op, listed, rfl⟩ := List.mem_map.mp started
    exact settled_dispatched dispatches inOrder listed
  · obtain ⟨graph, oldest, listed⟩ := leading inOrder id member
    obtain ⟨op, held, running⟩ := tracked.handedOut id member
    exact ⟨graph, settled_oldest oldest listed ⟨op, held, by rw [running]; rfl⟩, listed⟩

end Core
end CommitPipeline
