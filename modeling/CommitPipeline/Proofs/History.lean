import CommitPipeline.Proofs.Tracking

/-! Runs of a pipeline and what its state tells of them. A run is any sequence of calls, accepted or
rejected, at any instants, over a store that changes and refuses as it likes. Its history keeps each
call with its answer, the latest first. `Recorded` reads queue, table and retired set as statements
about that history. -/
namespace CommitPipeline

inductive Call where
  | request (now : Instant) (request : Request)
  | retireMissing (batches : List Batch)

def Engine.call {σ : Type} [OperationStore σ] (e : Engine σ) : Call → Except Error Step × Engine σ
  | .request now request => e.apply now request
  | .retireMissing batches => (.ok .empty, e.retireMissing batches)

/-- A call with the state that it met and its answer. -/
structure Entry where
  before : Core
  call : Call
  answer : Except Error Step

/-- The dependencies that a call to retire what is missing takes for finished: a restored operation
waits for them, and they are neither restored nor live. -/
def Core.IsMissing (c : Core) (batches : List Batch) (id : OperationId) : Prop :=
  (∃ batch ∈ batches, ∃ op ∈ c.ownOperations batch, id ∈ op.dependencies) ∧
    (∀ batch ∈ batches, ∀ op ∈ c.ownOperations batch, op.id ≠ id) ∧ id ∉ c.table

namespace Entry

/-- The request of a call that was not rejected. -/
def accepted? (entry : Entry) : Option Request :=
  match entry.call, entry.answer with
  | .request _ request, .ok _ => some request
  | _, _ => none

theorem accepted?_request {before : Core} {now : Instant} {request accepted : Request}
    {answer : Except Error Step}
    (found : accepted? ⟨before, .request now request, answer⟩ = some accepted) :
    accepted = request := by
  cases answer <;> cases found
  rfl

/-- The graph that a call queued. -/
def queued? (entry : Entry) : Option Graph :=
  entry.accepted?.bind (·.graph? entry.before.names)

theorem queued?_request {before : Core} {now : Instant} {request : Request}
    {answer : Except Error Step} {graph : Graph}
    (queued : queued? ⟨before, .request now request, answer⟩ = some graph) :
    request.graph? before.names = some graph := by
  obtain ⟨accepted, found, brings⟩ := Option.bind_eq_some_iff.mp queued
  exact accepted?_request found ▸ brings

/-- Whether a call queued an operation. -/
def Queues (entry : Entry) (id : OperationId) : Prop :=
  ∃ graph, entry.queued? = some graph ∧ id ∈ graph.members

/-- The operation that a call finalized. -/
def finalized? (entry : Entry) : Option OperationId :=
  entry.accepted?.bind (·.finalized?)

/-- Whether a call made an operation wait for another. -/
def Declares (entry : Entry) (id dependency : OperationId) : Prop :=
  ∃ request, entry.accepted? = some request ∧ request.Declares entry.before.names id dependency

/-- Whether a call took an operation for one that an earlier run had finished. -/
def Retires (entry : Entry) (id : OperationId) : Prop :=
  ∃ batches, entry.call = .retireMissing batches ∧ entry.before.IsMissing batches id

/-- The operations that a call started. -/
def dispatched (entry : Entry) : List Operation :=
  match entry.answer with
  | .ok step => step.dispatched
  | .error _ => []

end Entry

/-- The runs of new pipelines. Between two calls the store may become any other. -/
inductive Run {σ : Type} [OperationStore σ] (names : Names) (algorithm : Algorithm) :
    List Entry → Engine σ → Prop where
  | launch (store : σ) : Run names algorithm [] ⟨.new names algorithm, store⟩
  | call {history : List Entry} {e : Engine σ} (run : Run names algorithm history e) (store : σ)
      (call : Call) :
      Run names algorithm
        (⟨e.core, call, (Engine.call ⟨e.core, store⟩ call).1⟩ :: history)
        (Engine.call ⟨e.core, store⟩ call).2

/-- The ways in which a pipeline goes on from a state. The history is that of the calls since. -/
inductive Engine.GoesOn {σ : Type} [OperationStore σ] (e : Engine σ) :
    List Entry → Engine σ → Prop where
  | here : GoesOn e [] e
  | call {since : List Entry} {later : Engine σ} (goesOn : GoesOn e since later) (store : σ)
      (call : Call) :
      GoesOn e (⟨later.core, call, (Engine.call ⟨later.core, store⟩ call).1⟩ :: since)
        (Engine.call ⟨later.core, store⟩ call).2

/-- The run in which some calls are made, given with the latest first, and nobody else touches the
store. -/
def runOf {σ : Type} [OperationStore σ] (names : Names) (algorithm : Algorithm) (store : σ) :
    List Call → List Entry × Engine σ
  | [] => ([], ⟨.new names algorithm, store⟩)
  | call :: earlier =>
    let (history, e) := runOf names algorithm store earlier
    let (answer, after) := e.call call
    (⟨e.core, call, answer⟩ :: history, after)

def FinalizedIn (history : List Entry) (id : OperationId) : Prop :=
  ∃ entry ∈ history, entry.finalized? = some id

def RetiredIn (history : List Entry) (id : OperationId) : Prop :=
  ∃ entry ∈ history, entry.Retires id

section History
variable {history later : List Entry} {entry : Entry} {id : OperationId}

theorem not_finalizedIn_nil : ¬ FinalizedIn [] id := by
  simp [FinalizedIn]

theorem finalizedIn_cons :
    FinalizedIn (entry :: later) id ↔ entry.finalized? = some id ∨ FinalizedIn later id := by
  simp [FinalizedIn]

theorem retiredIn_cons :
    RetiredIn (entry :: later) id ↔ entry.Retires id ∨ RetiredIn later id := by
  simp [RetiredIn]

end History

namespace Core
variable {c after : Core} {id : OperationId} {op : Operation} {graph : Graph} {now : Instant}
  {request : Request} {change : Change} {operations : List Operation} {batches : List Batch}
  {history : List Entry} {entry : Entry}

theorem mem_retireMissing :
    id ∈ (c.retireMissing batches).retired ↔ id ∈ c.retired ∨ c.IsMissing batches id := by
  have mentioned (own : List Operation) (p : OperationId → Bool) :
      id ∈ (own.flatMap fun op => op.dependencies.toList.filter p) ↔
        (∃ op ∈ own, id ∈ op.dependencies) ∧ p id = true := by
    simp only [List.mem_flatMap, List.mem_filter, Std.ExtTreeSet.mem_toList]
    grind
  simp only [retireMissing, IsMissing, ownOperations, Std.ExtTreeSet.mem_insertMany_list,
    List.contains_iff_mem, mentioned]
  refine or_congr_right (and_congr ?_ ?_)
  · simp only [List.mem_flatMap]
    grind
  · simp only [Bool.and_eq_true, Bool.not_eq_true', Bool.eq_false_iff, Ne,
      Std.ExtTreeSet.contains_ofList, List.contains_iff_mem, Std.ExtTreeMap.contains_iff_mem,
      List.mem_map, List.mem_flatMap]
    grind

/-- What the state of a pipeline tells of its history. A member of a queued graph waits until it is
finalized, and so does the graph; what a commit declares lasts as long; final operations were
finalized by a call, and retired ones too, unless they were finished before this run. -/
structure Recorded (c : Core) (history : List Entry) : Prop where
  queued : ∀ {later entry earlier graph}, history = later ++ entry :: earlier →
    entry.queued? = some graph → ∀ id ∈ graph.members,
      (¬ FinalizedIn later id ↔ graph ∈ c.queue.graphs ∧ c.Unfinished id)
  accepted : ∀ entry ∈ history, ∀ graph, entry.queued? = some graph →
    ∃ latest, c.queue.latest = some latest ∧ graph.snapshot ≤ latest
  declared : ∀ {later entry earlier id dependency}, history = later ++ entry :: earlier →
    entry.Declares id dependency → ¬ FinalizedIn later id →
      ∃ op, c.table[id]? = some op ∧ op.status.isFinal = false ∧ dependency ∈ op.dependencies
  final : ∀ (id : OperationId) (op : Operation), c.table[id]? = some op →
    op.status.isFinal = true → FinalizedIn history id
  retired : ∀ id ∈ c.retired, FinalizedIn history id ∨ RetiredIn history id

theorem recorded_new (names : Names) (algorithm : Algorithm) :
    (new names algorithm).Recorded [] where
  queued split := by simp at split
  accepted entry member := by simp at member
  declared split := by simp at split
  final id op held := by simp [new] at held
  retired id member := by simp [new] at member

/-- A call that brings no graph and finalizes nothing leaves the record as it is, but for what it
retires. -/
theorem Recorded.quiet (recorded : c.Recorded history) (queue : after.queue = c.queue)
    (table : after.table = c.table)
    (retires : ∀ id ∈ after.retired, id ∈ c.retired ∨ entry.Retires id)
    (noGraph : entry.queued? = none) (noFinal : entry.finalized? = none)
    (noDependency : ∀ id dependency, ¬ entry.Declares id dependency) :
    after.Recorded (entry :: history) where
  queued {later one earlier graph} split found id member := by
    rcases List.cons_eq_append_iff.mp split with ⟨rfl, same⟩ | ⟨later, rfl, rest⟩
    · cases same
      rw [noGraph] at found
      cases found
    · rw [finalizedIn_cons, noFinal, queue]
      simpa [Unfinished, table] using recorded.queued rest found id member
  accepted one member graph found := by
    rcases List.mem_cons.mp member with rfl | member
    · rw [noGraph] at found
      cases found
    · rw [queue]
      exact recorded.accepted one member graph found
  declared {later one earlier id dependency} split declares waiting := by
    rcases List.cons_eq_append_iff.mp split with ⟨rfl, same⟩ | ⟨later, rfl, rest⟩
    · cases same
      exact (noDependency id dependency declares).elim
    · rw [table]
      exact recorded.declared rest declares fun final => waiting (finalizedIn_cons.mpr (.inr final))
  final id op held final :=
    finalizedIn_cons.mpr (.inr (recorded.final id op (table ▸ held) final))
  retired id member := by
    rcases retires id member with member | retires
    · exact (recorded.retired id member).imp (fun final => finalizedIn_cons.mpr (.inr final))
        fun retired => retiredIn_cons.mpr (.inr retired)
    · exact .inr (retiredIn_cons.mpr (.inl retires))

/-- Asking for what is the case already queues nothing and finalizes nothing. -/
theorem idle_quiet (idle : c.changeFor now request = .ok none) :
    request.graph? c.names = none ∧ request.finalized? = none ∧
      ∀ id dependency, ¬ request.Declares c.names id dependency := by
  cases request with
  | append | restore | complete | skip =>
    obtain ⟨_, -, done⟩ := except_bind_ok.mp idle
    cases done
  | reset | forceActive | setHold | setLimit | suspend | resume | dispatch =>
    exact ⟨rfl, rfl, fun _ _ => id⟩

theorem Admits.retired (admitted : c.Admits now request change) :
    change.core.retired = c.retired := by
  cases admitted <;> rfl

theorem Admits.latest (admitted : c.Admits now request change) {snapshot : Nat}
    (accepted : ∃ latest, c.queue.latest = some latest ∧ snapshot ≤ latest) :
    ∃ latest, change.core.queue.latest = some latest ∧ snapshot ≤ latest := by
  rcases admitted.cases_batch with ⟨queue, _, _, _, fits, -, rfl⟩ | ⟨queue, -⟩
  · obtain ⟨latest, known, bound⟩ := accepted
    obtain ⟨above, newest, -⟩ := push_ok fits.pushed
    exact ⟨_, newest, Nat.le_trans bound (Nat.le_of_lt (above latest known))⟩
  · rw [queue]
    exact accepted

/-- A graph of an earlier commit is queued after a request if and only if it was before. -/
theorem Admits.mem_graphs (admitted : c.Admits now request change)
    (accepted : ∃ latest, c.queue.latest = some latest ∧ graph.snapshot ≤ latest) :
    graph ∈ change.core.queue.graphs ↔ graph ∈ c.queue.graphs := by
  rcases admitted.cases_batch with ⟨queue, _, _, _, fits, -, rfl⟩ | ⟨queue, -⟩
  · refine ⟨fun queued => ?_, fun queued => ?_⟩
    · rcases mem_batch_graphs fits queued with old | rfl
      · exact old
      · obtain ⟨latest, known, bound⟩ := accepted
        exact absurd ((push_ok fits.pushed).1 latest known) (Nat.not_lt.mpr bound)
    · change graph ∈ queue.graphs
      rw [batch_graphs fits]
      exact List.mem_append_left _ queued
  · rw [queue]

/-- An operation of an earlier commit is unfinished after a request if it was before and the
request does not finalize it. -/
theorem Admits.unfinished (filed : c.Filed) (admitted : c.Admits now request change)
    (live : id ∈ c.table) :
    change.core.Unfinished id ↔ request.finalized? ≠ some id ∧ c.Unfinished id := by
  obtain ⟨op, held⟩ := mem_table.mp live
  obtain ⟨later, found, -, final⟩ := admitted.forward filed held
  simp only [Unfinished, held, found, Option.some.injEq, exists_eq_left', Bool.eq_false_iff, Ne]
  rw [final, not_or, and_comm]

/-- What a request queues waits in the queue. -/
theorem Admits.brings (admitted : c.Admits now request change)
    (found : request.graph? c.names = some graph) (member : id ∈ graph.members) :
    graph ∈ change.core.queue.graphs ∧ change.core.Unfinished id := by
  rcases admitted.cases_batch with ⟨queue, _, operations, _, fits, answers, rfl⟩ | kept
  · cases answers.graph.symm.trans found
    obtain ⟨op, listed, rfl⟩ := List.mem_map.mp member
    have pending := (fits.stamped op listed).2.2
    refine ⟨?_, op, lookup_batch_member fits listed, by rw [pending]; rfl⟩
    change _ ∈ queue.graphs
    rw [batch_graphs fits, if_neg (List.ne_nil_of_mem member)]
    exact List.mem_append_right _ List.mem_cons_self
  · cases kept.2.2.1.symm.trans found

/-- What a request queues is not live when it comes. -/
theorem Admits.queues_fresh (admitted : c.Admits now request change)
    (found : request.graph? c.names = some graph) (member : id ∈ graph.members) :
    id ∉ c.table := by
  rcases admitted.cases_batch with ⟨queue, _, operations, _, fits, answers, rfl⟩ | kept
  · cases answers.graph.symm.trans found
    obtain ⟨op, listed, rfl⟩ := List.mem_map.mp member
    exact fits.fresh op listed
  · cases kept.2.2.1.symm.trans found

/-- What is live after a request was live before or is queued by it. -/
theorem Admits.queues_new (filed : c.Filed) (admitted : c.Admits now request change)
    (live : id ∈ change.core.table) (isNew : id ∉ c.table) :
    ∃ graph, request.graph? c.names = some graph ∧ id ∈ graph.members := by
  obtain ⟨op, held⟩ := mem_table.mp live
  rcases admitted.cases_batch with ⟨_, _, _, _, fits, answers, rfl⟩ | ⟨-, continues, -⟩
  · rcases batch_origin filed fits held with ⟨member, rfl⟩ | ⟨-, earlier, found, -⟩
    · exact ⟨_, answers.graph, List.mem_map_of_mem member⟩
    · exact (isNew (mem_table.mpr ⟨earlier, found⟩)).elim
  · exact (isNew (continues.mem_iff.mp live)).elim

/-- The snapshot of what a request queues has been accepted. -/
theorem Admits.accepts (admitted : c.Admits now request change)
    (found : request.graph? c.names = some graph) :
    ∃ latest, change.core.queue.latest = some latest ∧ graph.snapshot ≤ latest := by
  rcases admitted.cases_batch with ⟨queue, snapshot, _, _, fits, answers, rfl⟩ | kept
  · cases answers.graph.symm.trans found
    exact ⟨snapshot, (push_ok fits.pushed).2.1, Nat.le_refl _⟩
  · cases kept.2.2.1.symm.trans found

/-- What a request declares holds of an operation that waits. -/
theorem Admits.declares (filed : c.Filed) (admitted : c.Admits now request change)
    {dependency : OperationId} (declares : request.Declares c.names id dependency) :
    ∃ op, change.core.table[id]? = some op ∧ op.status.isFinal = false ∧
      dependency ∈ op.dependencies := by
  rcases admitted.cases_batch with ⟨queue, _, operations, edges, fits, answers, rfl⟩ | kept
  · rcases answers.declared id dependency declares with ⟨op, listed, rfl, depends⟩ | edge
    · have pending := (fits.stamped op listed).2.2
      exact ⟨op, lookup_batch_member fits listed, by rw [pending]; rfl, depends⟩
    · obtain ⟨outside, op, held, unfinished⟩ := fits.outer _ edge
      have starts := (filed.keyed _ op held).symm
      refine ⟨withEdges edges op, ?_, (withEdges_status edges op).symm ▸ unfinished,
        mem_withEdges.mpr (.inr ⟨_, edge, starts, rfl⟩)⟩
      rw [lookup_batch_other filed outside, held, Option.map_some]
  · exact (kept.2.2.2 id dependency declares).elim

/-- An operation that is final after a request was final before or is finalized by it. -/
theorem Admits.final (filed : c.Filed) (admitted : c.Admits now request change)
    (held : change.core.table[id]? = some op) (isFinal : op.status.isFinal = true) :
    request.finalized? = some id ∨
      ∃ earlier, c.table[id]? = some earlier ∧ earlier.status.isFinal = true := by
  rcases admitted.origin filed held with ⟨isNew, -⟩ | ⟨earlier, found⟩
  · rw [isNew] at isFinal
    cases isFinal
  · obtain ⟨later, again, -, final⟩ := admitted.forward filed found
    cases again.symm.trans held
    exact (final.mp isFinal).symm.imp_right fun before => ⟨earlier, found, before⟩

/-- An admitted request goes on record. The history is split where the graph in question was queued:
either by this request, or by an earlier one, which is on record. -/
theorem Recorded.admitted (recorded : c.Recorded history) (filed : c.Filed)
    (admitted : c.Admits now request change) (step : Step) :
    change.core.Recorded (⟨c, .request now request, .ok step⟩ :: history) := by
  refine ⟨?queued, ?accepted, ?declared, ?final, ?retired⟩
  case queued =>
    intro later entry earlier graph split found id member
    rcases List.cons_eq_append_iff.mp split with ⟨rfl, same⟩ | ⟨later, rfl, rest⟩
    · cases same
      exact iff_of_true not_finalizedIn_nil (admitted.brings found member)
    · have accepted := recorded.accepted entry (rest ▸ by simp) graph found
      have live (queued : graph ∈ c.queue.graphs) : id ∈ c.table :=
        (filed.listed id).mpr ⟨graph, queued, member⟩
      rw [finalizedIn_cons, not_or, recorded.queued rest found id member,
        admitted.mem_graphs accepted]
      change request.finalized? ≠ some id ∧ _ ↔ _
      constructor
      · rintro ⟨notFinalized, queued, unfinished⟩
        exact ⟨queued, (admitted.unfinished filed (live queued)).mpr ⟨notFinalized, unfinished⟩⟩
      · rintro ⟨queued, unfinished⟩
        obtain ⟨notFinalized, unfinished⟩ := (admitted.unfinished filed (live queued)).mp unfinished
        exact ⟨notFinalized, queued, unfinished⟩
  case accepted =>
    intro entry member graph found
    rcases List.mem_cons.mp member with rfl | member
    · exact admitted.accepts found
    · exact admitted.latest (recorded.accepted entry member graph found)
  case declared =>
    intro later entry earlier id dependency split declares waiting
    rcases List.cons_eq_append_iff.mp split with ⟨rfl, same⟩ | ⟨later, rfl, rest⟩
    · cases same
      obtain ⟨_, ⟨⟩, declares⟩ := declares
      exact admitted.declares filed declares
    · rw [finalizedIn_cons, not_or] at waiting
      obtain ⟨op, held, unfinished, depends⟩ := recorded.declared rest declares waiting.2
      obtain ⟨later, found, continues, final⟩ := admitted.forward filed held
      refine ⟨later, found, ?_, continues.dependencies dependency depends⟩
      rw [Bool.eq_false_iff, Ne, final, unfinished]
      exact fun isFinal => waiting.1 (isFinal.resolve_left Bool.false_ne_true)
  case final =>
    intro id op held isFinal
    rw [finalizedIn_cons]
    refine (admitted.final filed held isFinal).imp_right ?_
    rintro ⟨earlier, found, before⟩
    exact recorded.final id earlier found before
  case retired =>
    intro id member
    rw [admitted.retired] at member
    exact (recorded.retired id member).imp (fun final => finalizedIn_cons.mpr (.inr final))
      fun retired => retiredIn_cons.mpr (.inr retired)

theorem settled_retired (c : Core) (operations : List Operation) :
    (c.settled operations).retired = c.prune.2.retired := by
  rw [settled, noteActivity, startAll_eq]

/-- The end of a call changes nothing of what is on record. -/
theorem Recorded.settle (recorded : c.Recorded history) (filed : c.Filed)
    (dispatches : c.prune.2.Dispatches now operations) :
    (c.settled operations).Recorded history where
  queued split found id member := by
    rw [recorded.queued split found id member, mem_settled_graphs,
      unfinished_settled filed dispatches, and_assoc, and_congr_right_iff]
    exact fun _ => ⟨fun unfinished => ⟨⟨id, member, unfinished⟩, unfinished⟩, And.right⟩
  accepted entry member graph found := by
    rw [settled_queue, pruned_latest]
    exact recorded.accepted entry member graph found
  declared split declares waiting := by
    obtain ⟨op, held, unfinished, depends⟩ := recorded.declared split declares waiting
    obtain ⟨later, found, continues, still⟩ := settled_forward filed dispatches held unfinished
    exact ⟨later, found, still, continues.dependencies _ depends⟩
  final id op held isFinal := by
    obtain ⟨earlier, found, -, same⟩ := settled_origin filed dispatches held
    exact recorded.final id earlier found (same ▸ isFinal)
  retired id member := by
    rw [settled_retired, mem_retired_pruned] at member
    rcases member with drained | member
    · obtain ⟨op, held, isFinal⟩ := final_of_drained filed drained
      exact .inl (recorded.final id op held isFinal)
    · exact recorded.retired id member

/-- What a call queues is not live when it comes. -/
theorem Answers.queues_fresh (answers : c.Answers now request answer after)
    (queues : Entry.Queues ⟨c, .request now request, answer⟩ id) : id ∉ c.table := by
  obtain ⟨graph, found, member⟩ := queues
  cases answers with
  | rejected => cases found
  | idle idle => cases (idle_quiet idle).1.symm.trans found
  | accepted admitted => exact admitted.queues_fresh found member

/-- What is live after a call was live before it, or the call has queued it. -/
theorem Answers.live_origin (answers : c.Answers now request answer after) (filed : c.Filed)
    (live : id ∈ after.table) :
    id ∈ c.table ∨ Entry.Queues ⟨c, .request now request, answer⟩ id := by
  cases answers with
  | rejected | idle => exact .inl live
  | accepted admitted dispatches =>
    have left := (mem_settled_table (filed.admitted admitted) dispatches).mp live
    by_cases before : id ∈ c.table
    · exact .inl before
    · exact .inr (admitted.queues_new filed left.1 before)

/-- The highest snapshot after a call is that of the commit that it has queued, which is above all
before it; otherwise it is what it was. -/
theorem Answers.latest (answers : c.Answers now request answer after) :
    (∃ graph, Entry.queued? ⟨c, .request now request, answer⟩ = some graph ∧
      after.queue.latest = some graph.snapshot ∧
        ∀ latest, c.queue.latest = some latest → latest < graph.snapshot) ∨
    (Entry.queued? ⟨c, .request now request, answer⟩ = none ∧
      after.queue.latest = c.queue.latest) := by
  cases answers with
  | rejected => exact .inr ⟨rfl, rfl⟩
  | idle idle => exact .inr ⟨(idle_quiet idle).1, rfl⟩
  | accepted admitted dispatches =>
    rw [settled_queue, pruned_latest]
    rcases admitted.cases_batch with ⟨queue, _, _, _, fits, found, rfl⟩ | ⟨same, -, noGraph, -⟩
    · obtain ⟨above, newest, -⟩ := push_ok fits.pushed
      exact .inl ⟨_, found.graph, newest, above⟩
    · exact .inr ⟨noGraph, by rw [same]⟩

theorem Answers.algorithm {answer : Except Error Step}
    (answers : c.Answers now request answer after) : after.algorithm = c.algorithm := by
  cases answers with
  | rejected | idle => rfl
  | accepted admitted => exact (settled_algorithm ..).trans admitted.algorithm

/-- What a request starts was offered to a pass over the changed state. -/
theorem Answers.dispatched {answer : Except Error Step}
    (answers : c.Answers now request answer after) (filed : c.Filed)
    (member : op ∈ Entry.dispatched ⟨c, .request now request, answer⟩) :
    ∃ (edited : Core) (operations : List Operation), edited.Filed ∧
      edited.algorithm = c.algorithm ∧ edited.prune.2.Dispatches now operations ∧
      op ∈ operations ∧ after = edited.settled operations := by
  cases answers with
  | rejected | idle => cases member
  | accepted admitted dispatches =>
    exact ⟨_, _, filed.admitted admitted, admitted.algorithm, dispatches, member, rfl⟩

/-! ### What holds in every run -/

/-- The state of a pipeline is sound, and true to its history. -/
structure Sound (c : Core) (history : List Entry) : Prop where
  filed : c.Filed
  tracked : c.Tracked
  leading : c.Leading
  busy : c.Busy
  recorded : c.Recorded history

theorem sound_new (names : Names) (algorithm : Algorithm) : (new names algorithm).Sound [] where
  filed := filed_new names algorithm
  tracked := tracked_new names algorithm
  leading := leading_new names algorithm
  busy := by simp [Busy, new, Queue.empty]
  recorded := recorded_new names algorithm

/-- Every answer to a request keeps a pipeline sound. -/
theorem Sound.answered {answer : Except Error Step} (sound : c.Sound history)
    (answers : c.Answers now request answer after) :
    after.Sound (⟨c, .request now request, answer⟩ :: history) := by
  cases answers with
  | rejected error =>
    refine ⟨sound.filed, sound.tracked, sound.leading, sound.busy, ?_⟩
    refine sound.recorded.quiet rfl rfl (fun _ => .inl) rfl rfl ?_
    rintro _ _ ⟨_, ⟨⟩, -⟩
  | idle idle =>
    obtain ⟨noGraph, noFinal, noDependency⟩ := idle_quiet idle
    refine ⟨sound.filed, sound.tracked, sound.leading, sound.busy, ?_⟩
    refine sound.recorded.quiet rfl rfl (fun _ => .inl) noGraph noFinal ?_
    rintro id dependency ⟨_, ⟨⟩, declares⟩
    exact noDependency id dependency declares
  | accepted admitted dispatches =>
    have filed := sound.filed.admitted admitted
    have tracked := sound.tracked.admitted sound.filed admitted
    exact ⟨filed.settle dispatches, tracked.settle filed dispatches,
      (sound.leading.admitted admitted).settle tracked dispatches, filed.busy_settled dispatches,
      (sound.recorded.admitted sound.filed admitted _).settle filed dispatches⟩

theorem Sound.retireMissing (sound : c.Sound history) (batches : List Batch)
    (answer : Except Error Step) :
    (c.retireMissing batches).Sound (⟨c, .retireMissing batches, answer⟩ :: history) where
  filed := sound.filed.of_continues rfl rfl rfl (.refl _)
  tracked := ⟨sound.tracked.handedOut, sound.tracked.running, sound.tracked.recovered⟩
  leading := sound.leading
  busy := sound.busy
  recorded := by
    refine sound.recorded.quiet rfl rfl (fun id member => ?_) rfl rfl ?_
    · exact (mem_retireMissing.mp member).imp_right fun missing => ⟨batches, rfl, missing⟩
    · rintro _ _ ⟨_, ⟨⟩, -⟩

end Core

namespace Run
variable {σ : Type} [OperationStore σ] {names : Names} {algorithm : Algorithm}
  {history : List Entry} {e : Engine σ}

theorem sound (run : Run names algorithm history e) : e.core.Sound history := by
  induction run with
  | launch store => exact Core.sound_new names algorithm
  | @call history e run store call ih =>
    cases call with
    | request now request =>
      exact ih.answered (Engine.apply_answers ⟨e.core, store⟩ now request ih.filed)
    | retireMissing batches => exact ih.retireMissing batches _

theorem algorithm_eq (run : Run names algorithm history e) : e.core.algorithm = algorithm := by
  induction run with
  | launch store => rfl
  | @call history e run store call ih =>
    cases call with
    | retireMissing batches => exact ih
    | request now request =>
      exact (Engine.apply_answers ⟨e.core, store⟩ now request run.sound.filed).algorithm.trans ih

theorem applied {now : Instant} {request : Request} {answer : Except Error Step}
    {after : Engine σ} (run : Run names algorithm history e)
    (applied : e.apply now request = (answer, after)) :
    Run names algorithm (⟨e.core, .request now request, answer⟩ :: history) after := by
  have called := run.call e.store (.request now request)
  have same : Engine.call ⟨e.core, e.store⟩ (.request now request) = (answer, after) := applied
  rwa [same] at called

theorem goesOn {since : List Entry} {later : Engine σ} (run : Run names algorithm history e)
    (goesOn : e.GoesOn since later) : Run names algorithm (since ++ history) later := by
  induction goesOn with
  | here => exact run
  | call _ store call ih => exact ih.call store call

theorem of_calls (names : Names) (algorithm : Algorithm) (store : σ) (calls : List Call) :
    Run names algorithm (runOf names algorithm store calls).1
      (runOf names algorithm store calls).2 := by
  induction calls with
  | nil => exact .launch store
  | cons call earlier ih => exact ih.call _ call

/-- The latest call of a run started operations that were offered to its last pass. -/
theorem dispatched {entry : Entry} {op : Operation}
    (run : Run names algorithm (entry :: history) e) (member : op ∈ entry.dispatched) :
    ∃ (c : Core) (now : Instant) (operations : List Operation), c.Filed ∧
      c.algorithm = algorithm ∧ c.prune.2.Dispatches now operations ∧ op ∈ operations ∧
      e.core = c.settled operations := by
  cases run with
  | @call _ e run store call =>
    cases call with
    | retireMissing batches => cases member
    | request now request =>
      obtain ⟨c, operations, filed, algorithm, dispatched⟩ :=
        (Engine.apply_answers ⟨e.core, store⟩ now request run.sound.filed).dispatched
          run.sound.filed member
      exact ⟨c, now, operations, filed, algorithm.trans run.algorithm_eq, dispatched⟩

end Run
end CommitPipeline
