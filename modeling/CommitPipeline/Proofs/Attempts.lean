import CommitPipeline.Proofs.AbidingStores
import CommitPipeline.Proofs.ReportsToCome

/-! What the simulated worker counts. It has one report to make for each operation that it has, made
up when the operation was handed over. The count, the reports to come and the state of the pipeline
agree, and each act of the pipeline keeps them in step: no report is rejected, and each is on the
latest attempt at its operation. -/
namespace CommitPipeline

open OperationStore (Abides)

/-! ### What is noted of an operation -/

namespace Note

/-- Whether the worker was handed an operation. -/
def hands (note : Note) (id : OperationId) : Bool := note.handed.any (·.id = id)

/-- Whether a running operation was given back. -/
def resets (note : Note) (id : OperationId) : Bool :=
  match note.accepted? with
  | some (.reset other _) => other = id
  | _ => false

/-- Whether an operation was finalized. -/
def finishes (note : Note) (id : OperationId) : Bool := note.finalized? = some id

/-- The graph that was queued. -/
def queued? : Note → Option Graph
  | .answered entry => entry.queued?
  | .handedOver _ => none

end Note

def handedTimes (notes : List Note) (id : OperationId) : Nat := notes.countP (·.hands id)

def resetTimes (notes : List Note) (id : OperationId) : Nat := notes.countP (·.resets id)

def finishedTimes (notes : List Note) (id : OperationId) : Nat := notes.countP (·.finishes id)

/-- The graphs that have been queued. -/
def graphsIn (notes : List Note) : List Graph := notes.filterMap (·.queued?)

section Notes
variable {notes : List Note} {entry : Entry} {id : OperationId} {op : Operation}

theorem handedTimes_handedOver : handedTimes (.handedOver op :: notes) id =
    handedTimes notes id + if op.id = id then 1 else 0 := by
  simp [handedTimes, List.countP_cons, Note.hands, Note.handed]

theorem handedTimes_answered :
    handedTimes (.answered entry :: notes) id = handedTimes notes id := by
  simp [handedTimes, Note.hands, Note.handed]

theorem resetTimes_handedOver : resetTimes (.handedOver op :: notes) id = resetTimes notes id := by
  simp [resetTimes, Note.resets, Note.accepted?]

theorem finishedTimes_handedOver :
    finishedTimes (.handedOver op :: notes) id = finishedTimes notes id := by
  simp [finishedTimes, Note.finishes, Note.finalized?, Note.accepted?]

theorem finishedTimes_answered : finishedTimes (.answered entry :: notes) id =
    finishedTimes notes id + if entry.finalized? = some id then 1 else 0 := by
  simp only [finishedTimes, List.countP_cons, Note.finishes, decide_eq_true_eq]
  rfl

theorem mem_graphsIn_answered {graph : Graph} : graph ∈ graphsIn (.answered entry :: notes) ↔
    entry.queued? = some graph ∨ graph ∈ graphsIn notes := by
  simp [graphsIn, List.mem_filterMap, Note.queued?]

/-- A request that reports on nothing counts for nothing. -/
theorem resetTimes_silent (silent : entry.outcome? = none) :
    resetTimes (.answered entry :: notes) id = resetTimes notes id := by
  have not : (Note.answered entry).resets id = false := by
    rw [Note.resets, Note.accepted?]
    cases accepted : entry.accepted? with
    | none => rfl
    | some request =>
      rw [Entry.outcome?, accepted] at silent
      cases request with
      | reset => cases silent
      | append | restore | complete | skip | forceActive | setHold | setLimit | suspend | resume
      | dispatch => rfl
  rw [resetTimes, List.countP_cons_of_neg (by rw [not]; exact Bool.false_ne_true), resetTimes]

theorem finalized?_silent (silent : entry.outcome? = none) : entry.finalized? = none := by
  rw [Entry.finalized?]
  cases accepted : entry.accepted? with
  | none => rfl
  | some request =>
    rw [Entry.outcome?, accepted] at silent
    cases request with
    | complete | skip => cases silent
    | append | restore | reset | forceActive | setHold | setLimit | suspend | resume | dispatch =>
      rfl

theorem resetTimes_completed {other : OperationId}
    (completed : entry.accepted? = some (.complete other)) :
    resetTimes (.answered entry :: notes) id = resetTimes notes id := by
  simp [resetTimes, Note.resets, Note.accepted?, completed]

theorem resetTimes_reset {other : OperationId} {delay : Option Delay}
    (reset : entry.accepted? = some (.reset other delay)) :
    resetTimes (.answered entry :: notes) id =
      resetTimes notes id + if other = id then 1 else 0 := by
  simp [resetTimes, List.countP_cons, Note.resets, Note.accepted?, reset]

end Notes

/-! ### The count, the reports and the state -/

theorem SimulatedWorker.attemptsAt_start (w : SimulatedWorker) (core : Core) (op : Operation)
    (id : OperationId) :
    (w.start core op).2.attemptsAt id = w.attemptsAt id + if op.id = id then 1 else 0 := by
  by_cases same : op.id = id
  · subst same
    simp [start, attemptsAt]
  · simp [start, attemptsAt, Std.ExtTreeMap.getD_insert, same]

/-- A call that queues a graph finalizes nothing. -/
theorem Entry.finalized?_of_queued {entry : Entry} {graph : Graph}
    (queued : entry.queued? = some graph) : entry.finalized? = none := by
  obtain ⟨request, accepted, brings⟩ := Option.bind_eq_some_iff.mp queued
  rw [Entry.finalized?, accepted]
  cases request with
  | append | restore => rfl
  | complete | skip | reset | forceActive | setHold | setLimit | suspend | resume | dispatch =>
    cases brings

/-- What is unfinished after a call was so before and is not finalized by it, or comes with it. -/
theorem Core.Answers.unfinished_iff {c after : Core} {now : Instant} {request : Request}
    {answer : Except Error Step} {id : OperationId}
    (answers : c.Answers now request answer after) (filed : c.Filed) :
    after.Unfinished id ↔
      (Entry.finalized? ⟨c, .request now request, answer⟩ ≠ some id ∧ c.Unfinished id) ∨
        Entry.Queues ⟨c, .request now request, answer⟩ id := by
  cases answers with
  | rejected =>
    simp [Entry.finalized?, Entry.Queues, Entry.queued?, Entry.accepted?]
  | idle idle =>
    obtain ⟨noGraph, noFinal, -⟩ := idle_quiet idle
    simp [Entry.finalized?, Entry.Queues, Entry.queued?, Entry.accepted?, noGraph, noFinal]
  | accepted admitted dispatches =>
    rw [unfinished_settled (filed.admitted admitted) dispatches, admitted.unfinished_iff filed]
    rfl

namespace Core
variable {c : Core} {id : OperationId}

theorem changeFor_complete (now : Instant) (running : c.statusOf id = .ok .active) :
    c.changeFor now (.complete id) = .ok (some (c.finalize id .completed)) := by
  simp only [changeFor, completeChange, running]
  rfl

/-- A running operation that is given back is pending, and held for the delay. -/
theorem changeFor_reset (now : Instant) (delay : Delay) (running : c.statusOf id = .ok .active) :
    ∃ change, c.changeFor now (.reset id (some delay)) = .ok (some change) ∧
      change.core.statusOf id = .ok .pending ∧
      change.core.holdOf id = .ok (some (now.after delay)) := by
  obtain ⟨op, held, -⟩ := statusOf_ok.mp running
  have edited : (c.table.modify id fun op => { op with
      status := .pending, hold := (some (now.after delay)).or op.hold })[id]? =
      some { op with status := .pending, hold := some (now.after delay) } := by
    rw [lookup_modify, if_pos rfl, held]
    rfl
  have decided : c.changeFor now (.reset id (some delay)) = .ok (some {
      write := some (.statusAndHold id .pending (some (now.after delay)))
      core := { c with
        table := c.table.modify id fun op =>
          { op with status := .pending, hold := (some (now.after delay)).or op.hold }
        active := c.active.erase id }
      events := .queue }) := by
    simp only [changeFor, resetChange, running]
    rfl
  exact ⟨_, decided, statusOf_ok.mpr ⟨_, edited, rfl⟩, holdOf_ok.mpr ⟨_, edited, rfl⟩⟩

end Core

/-- A report tells of the latest attempt at an operation, which is a failure or the success after
the failures of the settings. It is not rejected; after a failure the operation is pending, and
held. -/
structure Entry.Concludes (entry : Entry) (work : WorkerSettings) (notes : List Note)
    (now : Instant) (request : Request) (id : OperationId) : Prop where
  accepted : ∃ step, entry.answer = .ok step
  attempt : handedTimes notes id = resetTimes notes id + 1
  outcome : (handedTimes notes id ≤ work.failFirst ∧
      request = .reset id (some (.ofMillis work.retryDelayMs)) ∧
      ∃ change, entry.before.changeFor now request = .ok (some change) ∧
        change.core.statusOf id = .ok .pending ∧
        change.core.holdOf id = .ok (some (now.after (.ofMillis work.retryDelayMs)))) ∨
    (handedTimes notes id = work.failFirst + 1 ∧ request = .complete id)

section
variable {entry : Entry} {work : WorkerSettings} {notes : List Note} {now : Instant}
  {request : Request} {id : OperationId}

theorem Entry.Concludes.about (concludes : entry.Concludes work notes now request id) :
    request.outcome? = some id ∧ ∀ names, request.graph? names = none := by
  rcases concludes.outcome with ⟨-, rfl, -⟩ | ⟨-, rfl⟩ <;> exact ⟨rfl, fun _ => rfl⟩

/-- A report is accepted as one on its operation. -/
theorem Entry.Concludes.taken (concludes : entry.Concludes work notes now request id)
    (asked : entry.call = .request now request) :
    entry.accepted? = some request ∧ entry.outcome? = some id := by
  obtain ⟨step, answered⟩ := concludes.accepted
  have accepted : entry.accepted? = some request := by
    simp only [Entry.accepted?, asked, answered]
  refine ⟨accepted, ?_⟩
  rw [Entry.outcome?, accepted]
  exact concludes.about.1

/-- A failure is one more reset, the success one more end, of the operation and of no other. -/
theorem Entry.Concludes.counts (concludes : entry.Concludes work notes now request id)
    (accepted : entry.accepted? = some request) :
    (∀ other, id ≠ other →
      resetTimes (.answered entry :: notes) other = resetTimes notes other ∧
        finishedTimes (.answered entry :: notes) other = finishedTimes notes other) ∧
    ((handedTimes notes id ≤ work.failFirst ∧
        resetTimes (.answered entry :: notes) id = resetTimes notes id + 1 ∧
        finishedTimes (.answered entry :: notes) id = finishedTimes notes id) ∨
      (handedTimes notes id = work.failFirst + 1 ∧
        resetTimes (.answered entry :: notes) id = resetTimes notes id ∧
        finishedTimes (.answered entry :: notes) id = finishedTimes notes id + 1)) := by
  rcases concludes.outcome with ⟨fails, rfl, -⟩ | ⟨last, rfl⟩
  · have unfinished : entry.finalized? = none := by
      rw [Entry.finalized?, accepted]
      rfl
    have finished (other : OperationId) :
        finishedTimes (.answered entry :: notes) other = finishedTimes notes other := by
      rw [finishedTimes_answered, unfinished, if_neg (Option.some_ne_none other).symm,
        Nat.add_zero]
    refine ⟨fun other different => ⟨?_, finished other⟩, .inl ⟨fails, ?_, finished id⟩⟩
    · rw [resetTimes_reset accepted, if_neg different, Nat.add_zero]
    · rw [resetTimes_reset accepted, if_pos rfl]
  · have finishes : entry.finalized? = some id := by
      rw [Entry.finalized?, accepted]
      rfl
    refine ⟨fun other different => ⟨resetTimes_completed accepted, ?_⟩,
      .inr ⟨last, resetTimes_completed accepted, ?_⟩⟩
    · rw [finishedTimes_answered, finishes, if_neg (fun same => different (Option.some.inj same)),
        Nat.add_zero]
    · rw [finishedTimes_answered, finishes, if_pos rfl]

end

namespace Pipeline
variable {σ : Type} [OperationStore σ] {p after : Pipeline σ SimulatedWorker} {notes : List Note}
  {work : WorkerSettings} {id : OperationId} {now : Instant} {request : Request}

/-- The worker has counted what it was handed, and the reports to come are those on what it has.
Each attempt was a failure unless it was the last one. -/
structure InStep (p : Pipeline σ SimulatedWorker) (work : WorkerSettings) (notes : List Note) :
    Prop where
  balanced : p.Balanced notes
  free : p.dispatcher.isFree = true
  abides : Abides p.engine.store {id | p.engine.core.Unfinished id}
  settings : p.worker.settings = work
  counted : ∀ id, p.worker.attemptsAt id = handedTimes notes id
  due : (p.reports.map (·.request)).Perm
    ((withWorker notes).map fun id => p.worker.outcome id (handedTimes notes id))
  ended : ∀ id, handedTimes notes id =
    resetTimes notes id + finishedTimes notes id + (withWorker notes).count id
  failed : ∀ id, resetTimes notes id ≤ work.failFirst
  through : ∀ id, finishedTimes notes id ≠ 0 →
    finishedTimes notes id = 1 ∧ resetTimes notes id = work.failFirst
  unfinished : ∀ id, p.engine.core.Unfinished id → finishedTimes notes id = 0
  queued : ∀ graph ∈ graphsIn notes, ∀ id ∈ graph.members,
    p.engine.core.Unfinished id ∨ finishedTimes notes id ≠ 0

/-- What the worker has runs. -/
theorem InStep.running (inStep : p.InStep work notes) (handed : id ∈ withWorker notes) :
    p.engine.core.statusOf id = .ok .active ∧ p.engine.core.Unfinished id := by
  have slot := (inStep.balanced.slots id).mpr
    (Multiset.mem_add.mpr (.inr (Multiset.mem_coe.mpr handed)))
  obtain ⟨op, held, running⟩ := inStep.balanced.tracked.handedOut id slot
  exact ⟨Core.statusOf_ok.mpr ⟨op, held, running⟩, op, held, by rw [running]; rfl⟩

/-- What the worker has is being tried for the first time or has failed so far. -/
theorem InStep.trying (inStep : p.InStep work notes) (handed : id ∈ withWorker notes) :
    finishedTimes notes id = 0 ∧ handedTimes notes id = resetTimes notes id + 1 := by
  have distinct := (Multiset.nodup_add.mp inStep.balanced.distinct).2.1
  have one : (withWorker notes).count id = 1 := List.count_eq_one_of_mem distinct handed
  have none := inStep.unfinished id (inStep.running handed).2
  have times := inStep.ended id
  omega

theorem InStep.handedTimes_le (inStep : p.InStep work notes) (id : OperationId) :
    handedTimes notes id ≤ work.failFirst + 1 := by
  have failures := inStep.failed id
  by_cases handed : id ∈ withWorker notes
  · rw [(inStep.trying handed).2]
    omega
  · have times := inStep.ended id
    rw [List.count_eq_zero_of_not_mem handed] at times
    have once := inStep.through id
    omega

/-- A request leaves the records of what is finished and of what is queued right. -/
theorem InStep.answered (inStep : p.InStep work notes)
    (fresh : ∀ graph ∈ request.graph? p.engine.core.names, ∀ id ∈ graph.members,
      finishedTimes notes id = 0)
    (engine : after.engine = (p.engine.apply now request).2) :
    Abides after.engine.store {id | after.engine.core.Unfinished id} ∧
      (∀ id, after.engine.core.Unfinished id →
        finishedTimes (.answered (p.entryFor now request) :: notes) id = 0) ∧
      ∀ graph ∈ graphsIn (.answered (p.entryFor now request) :: notes), ∀ id ∈ graph.members,
        after.engine.core.Unfinished id ∨
          finishedTimes (.answered (p.entryFor now request) :: notes) id ≠ 0 := by
  have filed := inStep.balanced.filed
  have answers := Engine.apply_answers p.engine now request filed
  have known (id : OperationId) : (p.engine.apply now request).2.core.Unfinished id ↔
      ((p.entryFor now request).finalized? ≠ some id ∧ p.engine.core.Unfinished id) ∨
        (p.entryFor now request).Queues id := answers.unfinished_iff filed
  rw [engine]
  refine ⟨Engine.apply_abides now request filed inStep.abides, fun id unfinished => ?_,
    fun graph listed id member => ?_⟩
  · rw [finishedTimes_answered]
    rcases (known id).mp unfinished with ⟨notFinal, before⟩ | ⟨graph, queued, member⟩
    · rw [if_neg notFinal, inStep.unfinished id before]
    · have none := fresh graph (Entry.queued?_request queued) id member
      rw [none, Entry.finalized?_of_queued queued, if_neg nofun]
  · rcases mem_graphsIn_answered.mp listed with newest | earlier
    · exact .inl ((known id).mpr (.inr ⟨graph, newest, member⟩))
    · rw [finishedTimes_answered]
      rcases inStep.queued graph earlier id member with before | finished
      · by_cases final : (p.entryFor now request).finalized? = some id
        · rw [if_pos final]
          exact .inr (Nat.succ_ne_zero _)
        · exact .inl ((known id).mpr (.inl ⟨final, before⟩))
      · exact .inr (by omega)

theorem InStep.nothing (inStep : p.InStep work notes) (retired : IdSet)
    (engine : after.engine = { p.engine with core := { p.engine.core with retired } })
    (transit : after.inTransit = p.inTransit) (worker : after.worker = p.worker)
    (reports : after.reports = p.reports) (free : after.dispatcher.isFree = true) :
    after.InStep work notes := by
  have balanced := inStep.balanced.nothing retired (congrArg Engine.core engine) transit
    (Dispatcher.alive_of_isFree free)
  refine ⟨balanced, free, ?_, worker ▸ inStep.settings, worker ▸ inStep.counted, ?_, inStep.ended,
    inStep.failed, inStep.through, ?_, ?_⟩
  · rw [engine]
    exact inStep.abides
  · rw [reports, worker]
    exact inStep.due
  · rw [engine]
    exact inStep.unfinished
  · rw [engine]
    exact inStep.queued

/-- A request that reports on nothing leaves everything in step. -/
theorem InStep.asks (inStep : p.InStep work notes) (silent : request.outcome? = none)
    (fresh : ∀ graph ∈ request.graph? p.engine.core.names, ∀ id ∈ graph.members,
      finishedTimes notes id = 0)
    (engine : after.engine = (p.engine.apply now request).2)
    (transit : after.inTransit = p.inTransit + (p.entryFor now request).dispatched)
    (worker : after.worker = p.worker) (reports : after.reports = p.reports)
    (free : after.dispatcher.isFree = true) :
    after.InStep work (.answered (p.entryFor now request) :: notes) := by
  obtain ⟨abides, unfinished, queued⟩ := inStep.answered fresh engine
  have balanced := inStep.balanced.answered (by rw [silent]; exact nofun)
    (congrArg Engine.core engine) transit (Dispatcher.alive_of_isFree free)
  have noOutcome : (p.entryFor now request).outcome? = none := by
    refine Option.eq_none_iff_forall_ne_some.mpr fun id reported => ?_
    rw [Entry.outcome?_eq_some reported] at silent
    cases silent
  have noFinal (id : OperationId) :
      finishedTimes (.answered (p.entryFor now request) :: notes) id = finishedTimes notes id := by
    rw [finishedTimes_answered, finalized?_silent noOutcome, if_neg nofun, Nat.add_zero]
  have same : withWorker (.answered (p.entryFor now request) :: notes) = withWorker notes := by
    rw [withWorker, noOutcome]
  refine ⟨balanced, free, abides, worker ▸ inStep.settings, ?counted, ?due, ?ended, ?failed,
    ?through, unfinished, queued⟩
  case counted =>
    intro id
    rw [worker, handedTimes_answered]
    exact inStep.counted id
  case due =>
    rw [reports, worker, same]
    simp only [handedTimes_answered]
    exact inStep.due
  case ended =>
    intro id
    rw [handedTimes_answered, resetTimes_silent noOutcome, noFinal, same]
    exact inStep.ended id
  case failed =>
    intro id
    rw [resetTimes_silent noOutcome]
    exact inStep.failed id
  case through =>
    intro id
    rw [resetTimes_silent noOutcome, noFinal]
    exact inStep.through id

/-- An operation that the worker is handed is one more report to come. -/
theorem InStep.handsOver (inStep : p.InStep work notes) {op : Operation} {due : Instant}
    (engine : after.engine = p.engine) (transit : after.inTransit + {op} = p.inTransit)
    (worker : after.worker = (p.worker.start p.engine.core op).2)
    (reports : after.reports =
      Report.insert ⟨due, p.worker.outcome op.id (p.worker.attemptsAt op.id + 1)⟩ p.reports)
    (free : after.dispatcher.isFree = true) : after.InStep work (.handedOver op :: notes) := by
  have balanced := inStep.balanced.handsOver (congrArg Engine.core engine) transit
    (Dispatcher.alive_of_isFree free)
  have apart : op.id ∉ withWorker notes := by
    have moving : op.id ∈ p.inTransit.map (·.id) := Multiset.mem_map_of_mem _
      (transit ▸ Multiset.mem_add.mpr (.inr (Multiset.mem_singleton_self op)))
    exact Multiset.disjoint_left.mp (Multiset.nodup_add.mp inStep.balanced.distinct).2.2 moving
  have counted (id : OperationId) :
      after.worker.attemptsAt id = handedTimes (.handedOver op :: notes) id := by
    rw [handedTimes_handedOver, ← inStep.counted id, worker]
    exact p.worker.attemptsAt_start p.engine.core op id
  refine ⟨balanced, free, engine ▸ inStep.abides, ?settings, counted, ?due, ?ended, ?failed,
    ?through, ?unfinished, ?queued⟩
  case settings =>
    rw [worker]
    exact inStep.settings
  case due =>
    have head : p.worker.outcome op.id (p.worker.attemptsAt op.id + 1) =
        after.worker.outcome op.id (handedTimes (.handedOver op :: notes) op.id) := by
      rw [handedTimes_handedOver, if_pos rfl, inStep.counted, worker]
      rfl
    have tail : ((withWorker notes).map fun id => p.worker.outcome id (handedTimes notes id)) =
        (withWorker notes).map fun id =>
          after.worker.outcome id (handedTimes (.handedOver op :: notes) id) := by
      refine List.map_congr_left fun id handed => ?_
      have other : op.id ≠ id := fun same => apart (same ▸ handed)
      rw [handedTimes_handedOver, if_neg other, worker]
      rfl
    rw [reports, withWorker, List.map_cons, ← head, ← tail]
    exact ((Report.insert_perm _ _).map _).trans (inStep.due.cons _)
  case ended =>
    intro id
    rw [handedTimes_handedOver, resetTimes_handedOver, finishedTimes_handedOver, withWorker,
      List.count_cons, inStep.ended id]
    simp only [beq_iff_eq]
    omega
  case failed =>
    intro id
    rw [resetTimes_handedOver]
    exact inStep.failed id
  case through =>
    intro id
    rw [resetTimes_handedOver, finishedTimes_handedOver]
    exact inStep.through id
  case unfinished =>
    intro id
    rw [engine, finishedTimes_handedOver]
    exact inStep.unfinished id
  case queued =>
    intro graph listed id
    rw [engine, finishedTimes_handedOver]
    exact inStep.queued graph listed id

/-- Each report to come is on an operation that the worker has, and the others are on the others. -/
theorem InStep.report (inStep : p.InStep work notes) {index : Nat} {report : Report}
    (found : p.reports[index]? = some report) :
    ∃ id ∈ withWorker notes, report.request = p.worker.outcome id (handedTimes notes id) ∧
      ((p.reports.eraseIdx index).map (·.request)).Perm
        (((withWorker notes).erase id).map fun id =>
          p.worker.outcome id (handedTimes notes id)) := by
  have listed := List.mem_map_of_mem (f := Report.request) (List.mem_of_getElem? found)
  obtain ⟨id, handed, same⟩ := List.mem_map.mp (inStep.due.mem_iff.mp listed)
  obtain ⟨bound, rfl⟩ := List.getElem?_eq_some_iff.mp found
  have reports := (List.getElem_cons_eraseIdx_perm bound).map Report.request
  have operations := (List.perm_cons_erase handed).map
    fun id => p.worker.outcome id (handedTimes notes id)
  rw [List.map_cons] at reports operations
  rw [same] at operations
  exact ⟨id, handed, same.symm, (reports.trans (inStep.due.trans operations)).cons_inv⟩

/-- Whatever is reported is the end of an attempt. -/
theorem InStep.concludes (inStep : p.InStep work notes) (handed : id ∈ withWorker notes)
    (now : Instant) {request : Request}
    (reported : request = p.worker.outcome id (handedTimes notes id)) :
    (p.entryFor now request).Concludes work notes now request id := by
  obtain ⟨running, -⟩ := inStep.running handed
  obtain ⟨-, attempt⟩ := inStep.trying handed
  have bounded := inStep.failed id
  have noHold : ∀ other hold, request = .setHold other hold → p.engine.core.Unfinished other := by
    rintro other hold rfl
    rw [SimulatedWorker.outcome] at reported
    split at reported <;> cases reported
  rw [SimulatedWorker.outcome, inStep.settings] at reported
  by_cases fails : handedTimes notes id ≤ work.failFirst
  · rw [if_pos fails] at reported
    obtain ⟨change, decided, waits⟩ := Core.changeFor_reset now
      (.ofMillis work.retryDelayMs) running
    rw [← reported] at decided
    exact ⟨Engine.apply_taken inStep.abides decided noHold, attempt,
      .inl ⟨fails, reported, change, decided, waits⟩⟩
  · rw [if_neg fails] at reported
    have decided := Core.changeFor_complete now running
    rw [← reported] at decided
    exact ⟨Engine.apply_taken inStep.abides decided noHold, attempt,
      .inr ⟨by omega, reported⟩⟩

/-- A report that is made leaves everything in step. -/
theorem InStep.reported (inStep : p.InStep work notes) {index : Nat} {report : Report}
    (found : p.reports[index]? = some report)
    (engine : after.engine = (p.engine.apply now report.request).2)
    (transit : after.inTransit = p.inTransit + (p.entryFor now report.request).dispatched)
    (worker : after.worker = p.worker) (reports : after.reports = p.reports.eraseIdx index)
    (free : after.dispatcher.isFree = true) :
    after.InStep work (.answered (p.entryFor now report.request) :: notes) := by
  obtain ⟨id, handed, same, others⟩ := inStep.report found
  have concludes := inStep.concludes handed now same
  obtain ⟨first, attempt⟩ := inStep.trying handed
  obtain ⟨about, bringsNothing⟩ := concludes.about
  obtain ⟨accepted, reportsOn⟩ := concludes.taken rfl
  obtain ⟨elsewhere, here⟩ := concludes.counts accepted
  obtain ⟨abides, unfinished, queued⟩ := inStep.answered
    (fun graph brought => (Option.not_mem_none graph (bringsNothing _ ▸ brought)).elim) engine
  have onlyThis : ∀ other ∈ report.request.outcome?, other ∈ p.engine.core.active →
      other ∈ withWorker notes := by
    rw [about]
    rintro _ ⟨⟩ -
    exact handed
  have balanced := inStep.balanced.answered onlyThis (congrArg Engine.core engine) transit
    (Dispatcher.alive_of_isFree free)
  have left : withWorker (.answered (p.entryFor now report.request) :: notes) =
      (withWorker notes).erase id := by
    rw [withWorker, reportsOn]
  refine ⟨balanced, free, abides, worker ▸ inStep.settings, ?counted, ?due, ?ended, ?failed,
    ?through, unfinished, queued⟩
  case counted =>
    intro id
    rw [worker, handedTimes_answered]
    exact inStep.counted id
  case due =>
    rw [reports, worker, left]
    simp only [handedTimes_answered]
    exact others
  case ended =>
    intro other
    rw [handedTimes_answered, left]
    have before := inStep.ended other
    by_cases same : id = other
    · subst same
      have one : 0 < (withWorker notes).count id := List.count_pos_iff.mpr handed
      rw [List.count_erase_self]
      omega
    · rw [List.count_erase_of_ne (Ne.symm same)]
      have kept := elsewhere other same
      omega
  case failed =>
    intro other
    have before := inStep.failed other
    by_cases same : id = other
    · subst same
      omega
    · rwa [(elsewhere other same).1]
  case through =>
    intro other finished
    by_cases same : id = other
    · subst same
      omega
    · obtain ⟨resets, finishes⟩ := elsewhere other same
      rw [finishes] at finished ⊢
      rw [resets]
      exact inStep.through other finished

end Pipeline

end CommitPipeline
