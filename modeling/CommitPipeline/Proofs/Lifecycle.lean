import CommitPipeline.Proofs.History
import CommitPipeline.Store.Memory

/-! What a call can do to a live operation. It keeps what identifies the operation and lets it wait
for no less than before; its status changes only as a request about it says, or because the pass
starts it. An operation leaves the table with its whole graph, once all members are final, and from
one queueing to the next it is activated from outside at most once. -/
namespace CommitPipeline

/-- The operation whose status a request sets. -/
def Request.subject? : Request → Option OperationId
  | .complete id | .skip id | .reset id _ | .forceActive id => some id
  | _ => none

/-- Whether a request adds a dependency to a queued operation or to one of its batch by an edge. -/
def Request.Links (id dependency : OperationId) : Request → Prop
  | .append _ _ edges => ⟨id, dependency⟩ ∈ edges
  | _ => False

/-- Whether a request sets the hold of an operation. -/
def Request.Holds (id : OperationId) : Request → Prop
  | .setHold other _ | .reset other (some _) => other = id
  | _ => False

/-- The status of an operation before an admitted request and after it. -/
inductive Request.Sets (id : OperationId) : Request → Status → Status → Prop where
  | complete : Sets id (.complete id) .active .completed
  | skip {status : Status} (unfinished : status.isFinal = false) :
      Sets id (.skip id) status .skipped
  | reset (delay : Option Delay) : Sets id (.reset id delay) .active .pending
  | forceActive : Sets id (.forceActive id) .pending .active
  | other {request : Request} (elsewhere : request.subject? ≠ some id) (status : Status) :
      Sets id request status status

/-- An operation before an admitted request and after it. -/
structure Request.Edits (request : Request) (id : OperationId) (before after : Operation) :
    Prop where
  same : after = { before with
    status := after.status, hold := after.hold, dependencies := after.dependencies }
  status : request.Sets id before.status after.status
  hold : after.hold ≠ before.hold → request.Holds id
  dependencies : ∀ dependency, dependency ∈ after.dependencies ↔
    dependency ∈ before.dependencies ∨ request.Links id dependency
  linked : ∀ dependency, request.Links id dependency → before.status.isFinal = false

namespace Core
variable {c after : Core} {id : OperationId} {op : Operation} {graph : Graph} {now : Instant}
  {request : Request} {change : Change} {operations : List Operation}
  {answer : Except Error Step}

/-! ### One request -/

private theorem modify_edits {target : OperationId} {f : Operation → Operation}
    (held : c.table[id]? = some op) (here : target = id → request.Edits id op (f op))
    (elsewhere : target ≠ id → request.Edits id op op) :
    ∃ later, (c.table.modify target f)[id]? = some later ∧ request.Edits id op later := by
  rw [lookup_modify, held]
  by_cases about : target = id
  · exact ⟨f op, if_pos about, here about⟩
  · exact ⟨op, if_neg about, elsewhere about⟩

/-- A request that adds no dependency sets a status at most. -/
theorem edits_of_sets {status : Status} (sets : request.Sets id op.status status)
    (unlinked : ∀ dependency, ¬ request.Links id dependency) :
    request.Edits id op { op with status } where
  same := rfl
  status := sets
  hold differs := (differs rfl).elim
  dependencies dependency := (or_iff_left (unlinked dependency)).symm
  linked dependency links := (unlinked dependency links).elim

theorem edits_refl (elsewhere : request.subject? ≠ some id)
    (unlinked : ∀ dependency, ¬ request.Links id dependency) : request.Edits id op op :=
  edits_of_sets (.other elsewhere op.status) unlinked

theorem append_edits {queue : Queue} {snapshot : Nat} {batch : List Operation} {edges : List Edge}
    (filed : c.Filed)
    (fits : c.BatchFits queue snapshot (batch.map fun op => withEdges edges (c.stamp snapshot op))
      (outerEdges (batch.map (·.id)) edges)) (held : c.table[id]? = some op) :
    Request.Edits (.append snapshot batch edges) id op
      (withEdges (outerEdges (batch.map (·.id)) edges) op) := by
  have named : op.id = id := filed.keyed id op held
  have outside : id ∉ batch.map (·.id) := stamped_ids c snapshot edges batch ▸ fits.absent held
  have outer {dependency : OperationId} :
      ⟨id, dependency⟩ ∈ edges ↔ ⟨id, dependency⟩ ∈ outerEdges (batch.map (·.id)) edges := by
    rw [outerEdges, List.mem_filter, Bool.not_eq_true', Bool.eq_false_iff, Ne,
      List.contains_iff_mem]
    exact (and_iff_left outside).symm
  refine ⟨?same, ?status, fun differs => ?hold, fun dependency => ?dependencies,
    fun dependency links => ?linked⟩
  case same =>
    rw [withEdges_eq]
  case status =>
    rw [withEdges_status]
    refine .other ?_ op.status
    rintro ⟨⟩
  case hold =>
    rw [withEdges_eq] at differs
    exact (differs rfl).elim
  case dependencies =>
    rw [mem_withEdges, named]
    refine or_congr_right ⟨?_, fun links => ⟨_, outer.mp links, rfl, rfl⟩⟩
    rintro ⟨⟨starts, ends⟩, member, rfl, rfl⟩
    exact outer.mpr member
  case linked =>
    obtain ⟨-, other, found, unfinished⟩ := fits.outer _ (outer.mp links)
    cases held.symm.trans found
    exact unfinished

/-- A live operation is edited by an admitted request as the request says. -/
theorem Admits.edits (filed : c.Filed) (admitted : c.Admits now request change)
    (held : c.table[id]? = some op) :
    ∃ later, change.core.table[id]? = some later ∧ request.Edits id op later := by
  cases admitted with
  | append pushed distinct fresh fit =>
    have fits := append_fits pushed distinct fresh fit
    refine ⟨_, ?_, append_edits filed fits held⟩
    rw [lookup_batch_other filed (fits.absent held), held, Option.map_some]
  | restore pushed distinct fresh =>
    have fits := restore_fits pushed distinct fresh
    refine ⟨op, ?_, edits_refl nofun fun _ => not_false⟩
    rw [lookup_batch_other filed (fits.absent held), held]
    rfl
  | complete found running =>
    refine modify_edits held (fun same => ?_) fun other =>
      edits_refl (fun same => other (Option.some.inj same)) fun _ => not_false
    subst same
    cases held.symm.trans found
    exact edits_of_sets (running ▸ .complete) fun _ => not_false
  | skip found unfinished =>
    refine modify_edits held (fun same => ?_) fun other =>
      edits_refl (fun same => other (Option.some.inj same)) fun _ => not_false
    subst same
    cases held.symm.trans found
    exact edits_of_sets (.skip unfinished) fun _ => not_false
  | @reset target _ delay found running =>
    refine modify_edits held (fun same => ?_) fun other =>
      edits_refl (fun same => other (Option.some.inj same)) fun _ => not_false
    subst same
    cases held.symm.trans found
    refine ⟨rfl, running ▸ .reset delay, fun differs => ?_, fun _ => (or_iff_left not_false).symm,
      nofun⟩
    cases delay with
    | none => exact (differs rfl).elim
    | some delay => rfl
  | forceActive found waiting =>
    refine modify_edits held (fun same => ?_) fun other =>
      edits_refl (fun same => other (Option.some.inj same)) fun _ => not_false
    subst same
    cases held.symm.trans found
    exact edits_of_sets (waiting ▸ .forceActive) fun _ => not_false
  | setHold found differs =>
    refine modify_edits held (fun same => ?_) fun _ => edits_refl nofun fun _ => not_false
    refine ⟨rfl, .other ?_ op.status, fun _ => same, fun _ => (or_iff_left not_false).symm, nofun⟩
    exact nofun
  | setLimit | suspend | resume | dispatch =>
    exact ⟨op, held, edits_refl nofun fun _ => not_false⟩

/-! ### The end of a call -/

/-- At the end of a call an operation goes with its drained graph, or is as it was, or is started,
and then it had been pending and is handed out once. -/
theorem settled_cases (filed : c.Filed) (dispatches : c.prune.2.Dispatches now operations)
    (held : c.table[id]? = some op) :
    (∃ graph ∈ c.queue.graphs, c.isDrained graph = true ∧ id ∈ graph.members) ∨
      (id ∉ operations.map (·.id) ∧ (c.settled operations).table[id]? = some op) ∨
      (op.status = .pending ∧ (operations.map (·.id)).count id = 1 ∧
        (c.settled operations).table[id]? = some { op with status := .active }) := by
  by_cases drained : id ∈ c.drainedMembers
  · exact .inl (mem_drainedMembers.mp drained)
  · have kept : c.prune.2.table[id]? = some op := by rw [lookup_pruned, if_neg drained, held]
    right
    by_cases started : id ∈ operations.map (·.id)
    · obtain ⟨one, listed, rfl⟩ := List.mem_map.mp started
      obtain ⟨-, -, -, waiting, found, isReady, handedOut⟩ := dispatches.ready listed
      cases kept.symm.trans found
      refine .inr ⟨(Readiness.isReady_iff.mp isReady).1,
        List.count_eq_one_of_mem (dispatches.distinct filed.prune) started, ?_⟩
      rw [← handedOut]
      exact lookup_started dispatches filed.prune listed
    · exact .inl ⟨started, (lookup_not_started started).trans kept⟩

/-- A drained graph leaves the queue and its members the table. -/
theorem drained_gone (filed : c.Filed) (dispatches : c.prune.2.Dispatches now operations)
    (queued : graph ∈ c.queue.graphs) (drained : c.isDrained graph = true) :
    graph ∉ (c.settled operations).queue.graphs ∧
      ∀ id ∈ graph.members, id ∉ (c.settled operations).table := by
  constructor
  · intro still
    obtain ⟨-, id, member, op, held, unfinished⟩ := mem_settled_graphs.mp still
    rw [isDrained_iff.mp drained id member op held] at unfinished
    cases unfinished
  · intro id member live
    obtain ⟨-, kept⟩ := (mem_settled_table filed dispatches).mp live
    exact kept (mem_drainedMembers.mpr ⟨graph, queued, drained, member⟩)

/-- A request leaves the graph of a live operation in the queue. -/
theorem Admits.keeps_graph (filed : c.Filed) (admitted : c.Admits now request change)
    (live : id ∈ c.table) (queued : graph ∈ change.core.queue.graphs)
    (member : id ∈ graph.members) : graph ∈ c.queue.graphs := by
  obtain ⟨former, formerQueued, formerMember⟩ := (filed.listed id).mp live
  have still : former ∈ change.core.queue.graphs :=
    (admitted.mem_graphs (filed.accepted former formerQueued)).mpr formerQueued
  exact (filed.admitted admitted).same_graph queued still member formerMember ▸ formerQueued

end Core

/-! ### A whole call -/

namespace Entry

/-- What a call is asked to make of a status: nothing, unless it is an accepted request. -/
def Asks (entry : Entry) (id : OperationId) (before after : Status) : Prop :=
  match entry.accepted? with
  | some request => request.Sets id before after
  | none => after = before

/-- The status of a live operation before a call and after it. It is what the call was asked for,
unless a pass starts the operation then; in that case the call hands it out exactly once. -/
inductive Sets (entry : Entry) (id : OperationId) : Status → Status → Prop where
  | asked {before after : Status} (asks : entry.Asks id before after)
      (notStarted : id ∉ entry.dispatched.map (·.id)) : Sets entry id before after
  | started {before : Status} (asks : entry.Asks id before .pending)
      (once : (entry.dispatched.map (·.id)).count id = 1) : Sets entry id before .active

/-- A live operation before a call and after it. -/
structure Carries (entry : Entry) (id : OperationId) (before after : Operation) : Prop where
  same : after = { before with
    status := after.status, hold := after.hold, dependencies := after.dependencies }
  status : entry.Sets id before.status after.status
  hold : after.hold ≠ before.hold → ∃ request ∈ entry.accepted?, request.Holds id
  dependencies : ∀ dependency, dependency ∈ after.dependencies ↔ dependency ∈ before.dependencies ∨
    ∃ request ∈ entry.accepted?, request.Links id dependency
  linked : ∀ request ∈ entry.accepted?, ∀ dependency, request.Links id dependency →
    before.status.isFinal = false

/-- A call takes a graph out of the queue and its members out of the table. Each of them was final
or is finalized by the call. -/
structure Drops (entry : Entry) (after : Core) (graph : Graph) : Prop where
  queued : graph ∈ entry.before.queue.graphs
  removed : graph ∉ after.queue.graphs
  gone : ∀ id ∈ graph.members, id ∉ after.table
  final : ∀ id ∈ graph.members, (∃ op, entry.before.table[id]? = some op ∧
    op.status.isFinal = true) ∨ entry.finalized? = some id

/-- Every live operation is carried on by a call or dropped with its graph. -/
def KeepsOperations (entry : Entry) (after : Core) : Prop :=
  ∀ (id : OperationId) (op : Operation), entry.before.table[id]? = some op →
    (∃ later, after.table[id]? = some later ∧ entry.Carries id op later) ∨
      ∃ graph, id ∈ graph.members ∧ entry.Drops after graph

/-- A call that is rejected, or is no request, carries every operation on as it is. -/
theorem keepsOperations_of_rejected {entry : Entry} {after : Core}
    (rejected : entry.accepted? = none) (silent : entry.dispatched = [])
    (same : after.table = entry.before.table) : entry.KeepsOperations after := by
  intro id op held
  have asks : entry.Asks id op.status op.status := by rw [Asks, rejected]
  refine .inl ⟨op, same ▸ held, rfl, .asked asks ?_, fun differs => (differs rfl).elim, ?_, ?_⟩
  all_goals simp [rejected, silent]

end Entry

namespace Core
variable {c after : Core} {id : OperationId} {op : Operation} {graph : Graph} {now : Instant}
  {request : Request} {answer : Except Error Step} {history : List Entry}

theorem idle_subject (idle : c.changeFor now request = .ok none) : request.subject? = none := by
  cases request with
  | complete | skip | reset | forceActive =>
    obtain ⟨_, -, done⟩ := except_bind_ok.mp idle
    cases done
  | append | restore | setHold | setLimit | suspend | resume | dispatch => rfl

theorem idle_links (idle : c.changeFor now request = .ok none) (dependency : OperationId) :
    ¬ request.Links id dependency := by
  cases request with
  | append =>
    obtain ⟨_, -, done⟩ := except_bind_ok.mp idle
    cases done
  | restore | complete | skip | reset | forceActive | setHold | setLimit | suspend | resume
  | dispatch => exact not_false

/-- An operation that was edited and at most started after that is carried on. -/
theorem carries_of_edits {edited : Operation} {status : Status} {step : Step}
    (edits : request.Edits id op edited)
    (sets : Entry.Sets ⟨c, .request now request, .ok step⟩ id op.status status) :
    Entry.Carries ⟨c, .request now request, .ok step⟩ id op { edited with status } where
  same := by rw [edits.same]
  status := sets
  hold differs := ⟨request, rfl, edits.hold differs⟩
  dependencies := by simpa [Entry.accepted?] using edits.dependencies
  linked := by simpa [Entry.accepted?] using edits.linked

/-- An answer to a request carries every operation on, or drops it with its graph. -/
theorem Answers.keepsOperations (answers : c.Answers now request answer after) (filed : c.Filed) :
    Entry.KeepsOperations ⟨c, .request now request, answer⟩ after := by
  cases answers with
  | rejected error => exact Entry.keepsOperations_of_rejected rfl rfl rfl
  | idle idle =>
    intro id op held
    have edits : request.Edits id op op :=
      edits_refl (by rw [idle_subject idle]; exact nofun) (idle_links idle)
    exact .inl ⟨op, held, carries_of_edits edits (.asked edits.status List.not_mem_nil)⟩
  | @accepted change operations admitted dispatches =>
    intro id op held
    have editedFiled := filed.admitted admitted
    obtain ⟨edited, found, edits⟩ := admitted.edits filed held
    rcases settled_cases editedFiled dispatches found with ⟨graph, queued, drained, member⟩ |
      ⟨notStarted, kept⟩ | ⟨pending, once, started⟩
    · obtain ⟨removed, gone⟩ := drained_gone editedFiled dispatches queued drained
      have queuedBefore := admitted.keeps_graph filed (mem_table.mpr ⟨op, held⟩) queued member
      refine .inr ⟨graph, member, queuedBefore, removed, gone, fun other listed => ?_⟩
      obtain ⟨last, lastHeld⟩ := editedFiled.live queued listed
      exact (admitted.final filed lastHeld
        (isDrained_iff.mp drained other listed last lastHeld)).symm
    · exact .inl ⟨edited, kept, carries_of_edits edits (.asked edits.status notStarted)⟩
    · exact .inl ⟨_, started, carries_of_edits edits (.started (pending ▸ edits.status) once)⟩

/-! ### Activation from outside -/

/-- An operation that was activated from outside cannot be so again until it is queued anew. -/
def Spent (c : Core) (id : OperationId) : Prop := id ∈ c.recovered ∨ id ∉ c.table

theorem Admits.recovered_subset (admitted : c.Admits now request change)
    (member : id ∈ c.recovered) : id ∈ change.core.recovered := by
  cases admitted with
  | forceActive => exact Std.ExtTreeSet.mem_insert.mpr (.inr member)
  | append | restore | complete | skip | reset | setHold | setLimit | suspend | resume
  | dispatch => exact member

theorem Spent.settle {operations : List Operation} (spent : c.Spent id) (filed : c.Filed)
    (dispatches : c.prune.2.Dispatches now operations) : (c.settled operations).Spent id := by
  rw [Spent, settled_recovered, mem_settled_table filed dispatches]
  by_cases drained : id ∈ c.drainedMembers
  · exact .inr fun live => live.2 drained
  · exact spent.imp (fun member => ⟨drained, member⟩) fun absent live => absent live.1

theorem Answers.spent (answers : c.Answers now request answer after) (filed : c.Filed)
    (spent : c.Spent id) (notQueued : ¬ Entry.Queues ⟨c, .request now request, answer⟩ id) :
    after.Spent id := by
  cases answers with
  | rejected | idle => exact spent
  | @accepted change operations admitted dispatches =>
    have edited : change.core.Spent id :=
      spent.imp admitted.recovered_subset fun absent live =>
        notQueued (admitted.queues_new filed live absent)
    exact edited.settle (filed.admitted admitted) dispatches

/-- An operation that can be activated from outside is not spent, and is spent after that. -/
theorem Answers.spends (answers : c.Answers now request answer after) (filed : c.Filed)
    (forced : Entry.accepted? ⟨c, .request now request, answer⟩ = some (.forceActive id)) :
    ¬ c.Spent id ∧ after.Spent id := by
  cases answers with
  | rejected => cases forced
  | idle idle =>
    cases forced
    obtain ⟨_, -, done⟩ := except_bind_ok.mp idle
    cases done
  | @accepted change operations admitted dispatches =>
    cases forced
    have editedFiled := filed.admitted admitted
    cases admitted with
    | @forceActive _ op held waiting first =>
      refine ⟨fun spent => ?_, Spent.settle (.inl ?_) editedFiled dispatches⟩
      · exact spent.elim first fun absent => absent (mem_table.mpr ⟨op, held⟩)
      · exact Std.ExtTreeSet.mem_insert_self

/-- Whatever was activated from outside is spent, unless it has been gone and is queued anew. -/
def SpentSince (c : Core) (history : List Entry) : Prop :=
  ∀ {later earlier : List Entry} {first : Entry} {id : OperationId},
    history = later ++ first :: earlier → first.accepted? = some (.forceActive id) →
    (∃ entry ∈ later, id ∉ entry.before.table ∧ entry.Queues id) ∨ c.Spent id

end Core

/-- Between two activations from outside an operation was gone, and was queued anew. -/
def ForcedOnce (history : List Entry) : Prop :=
  ∀ {later between earlier : List Entry} {second first : Entry} {id : OperationId},
    history = later ++ second :: between ++ first :: earlier →
    first.accepted? = some (.forceActive id) → second.accepted? = some (.forceActive id) →
    ∃ entry ∈ between, id ∉ entry.before.table ∧ entry.Queues id

section Run
variable {σ : Type} [OperationStore σ] {names : Names} {algorithm : Algorithm}
  {history : List Entry} {e : Engine σ}

/-- Every call of a run carries the live operations on, or drops them with their graph. -/
theorem Run.keepsOperations (run : Run names algorithm history e) (store : σ) (call : Call) :
    Entry.KeepsOperations ⟨e.core, call, (Engine.call ⟨e.core, store⟩ call).1⟩
      (Engine.call ⟨e.core, store⟩ call).2.core := by
  have filed := run.sound.filed
  cases call with
  | request now request =>
    exact (Engine.apply_answers ⟨e.core, store⟩ now request filed).keepsOperations filed
  | retireMissing batches => exact Entry.keepsOperations_of_rejected rfl rfl rfl

theorem Run.spentSince (run : Run names algorithm history e) : e.core.SpentSince history := by
  induction run with
  | launch store => exact fun split => by simp at split
  | @call history e earlierRun store call ih =>
    intro later earlier first id split forced
    have filed := earlierRun.sound.filed
    cases call with
    | retireMissing batches =>
      rcases List.cons_eq_append_iff.mp split with ⟨rfl, same⟩ | ⟨later, rfl, rest⟩
      · cases same
        cases forced
      · refine (ih rest forced).imp_left ?_
        rintro ⟨entry, member, gone, queues⟩
        exact ⟨entry, List.mem_cons_of_mem _ member, gone, queues⟩
    | request now request =>
      have answers := Engine.apply_answers ⟨e.core, store⟩ now request filed
      rcases List.cons_eq_append_iff.mp split with ⟨rfl, same⟩ | ⟨later, rfl, rest⟩
      · cases same
        exact .inr (answers.spends filed forced).2
      · rcases ih rest forced with ⟨entry, member, gone, queues⟩ | spent
        · exact .inl ⟨entry, List.mem_cons_of_mem _ member, gone, queues⟩
        · by_cases queues : Entry.Queues ⟨e.core, .request now request,
              (Engine.apply ⟨e.core, store⟩ now request).1⟩ id
          · exact .inl ⟨_, List.mem_cons_self, answers.queues_fresh queues, queues⟩
          · exact .inr (answers.spent filed spent queues)

theorem Run.forcedOnce (run : Run names algorithm history e) : ForcedOnce history := by
  induction run with
  | launch store => exact fun split => by simp at split
  | @call history e earlierRun store call ih =>
    intro later between earlier second first id split forcedFirst forcedSecond
    rw [List.append_assoc] at split
    rcases List.cons_eq_append_iff.mp split with ⟨rfl, same⟩ | ⟨later, rfl, rest⟩
    · obtain ⟨rfl, rest⟩ := List.cons.inj same
      refine (earlierRun.spentSince rest.symm forcedFirst).resolve_right fun spent => ?_
      cases call with
      | retireMissing batches => cases forcedSecond
      | request now request =>
        have filed := earlierRun.sound.filed
        have answers := Engine.apply_answers ⟨e.core, store⟩ now request filed
        exact (answers.spends filed forcedSecond).1 spent
    · exact ih (rest.trans (List.append_assoc ..).symm) forcedFirst forcedSecond

/-- Whatever is called next, accepted or rejected, over whatever store: each live operation goes on
as the same operation, with a status that the call or the pass may give it, or it is final and goes
with its whole graph. And no operation is activated from outside twice unless it was gone and queued
anew in between. -/
theorem lifecycle_kept (run : Run names algorithm history e) :
    (∀ (store : σ) (call : Call),
      let entry : Entry := ⟨e.core, call, (Engine.call ⟨e.core, store⟩ call).1⟩
      entry.KeepsOperations (Engine.call ⟨e.core, store⟩ call).2.core) ∧
    ForcedOnce history :=
  ⟨run.keepsOperations, run.forcedOnce⟩

/-- A suspended pipeline whose first operation is activated from outside and completed, comes again
with the next commit, and is activated from outside once more; the latest call is first. -/
def activatedInEachCommit : List Call := [
  .request .first (.forceActive (.ofNat 1)),
  .request .first (.append 2 [.new (.ofNat 1), .new (.ofNat 2)] [⟨.ofNat 2, .ofNat 1⟩]),
  .request .first (.complete (.ofNat 1)),
  .request .first (.forceActive (.ofNat 1)),
  .request .first (.append 1 [.new (.ofNat 1)] []),
  .request .first (.suspend 1)]

theorem activated_in_each_commit :
    let run := runOf (.new "uploads" []) .commitGraph Memory.empty activatedInEachCommit
    ForcedOnce run.1 ∧
      run.1.map (fun entry => entry.accepted?.bind (·.subject?)) =
        [some (.ofNat 1), none, some (.ofNat 1), some (.ofNat 1), none, none] ∧
      (run.2.core.listed.map fun entry => (entry.id, entry.operation.status)) =
        [(.ofNat 1, .active), (.ofNat 2, .pending)] ∧
      ∀ (store : Memory) (call : Call),
        Entry.KeepsOperations ⟨run.2.core, call, (Engine.call ⟨run.2.core, store⟩ call).1⟩
          (Engine.call ⟨run.2.core, store⟩ call).2.core := by
  obtain ⟨kept, forced⟩ :=
    lifecycle_kept (.of_calls (.new "uploads" []) .commitGraph Memory.empty activatedInEachCommit)
  exact ⟨forced, by decide +kernel, by decide +kernel, kept⟩

end Run
end CommitPipeline
