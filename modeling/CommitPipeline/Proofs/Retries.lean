import CommitPipeline.Proofs.Attempts
import CommitPipeline.Proofs.PlanDraining

/-! How often the simulated worker tries. As long as nobody else touches the statuses of operations
and none is queued anew when it is through, an operation is through after the failures of the
settings and one success, however the acts of callers, tasks and worker are interleaved. -/
namespace CommitPipeline

open OperationStore (Abides)

namespace Watched
variable {σ : Type} [OperationStore σ] {s after : Watched σ SimulatedWorker} {notes : List Note}
  {settings : LaunchSettings} {work : WorkerSettings}

/-- An act of a run in which only the dispatcher and the worker change the statuses of operations,
and nobody queues a finished operation anew. -/
structure Spares (s : Watched σ SimulatedWorker) (notes : List Note) (act : Act σ) : Prop where
  statuses : act.sparesStatuses = true
  fresh : ∀ request ∈ s.request? act, ∀ graph ∈ request.graph? s.pipeline.engine.core.names,
    ∀ id ∈ graph.members, finishedTimes notes id = 0

instance (s : Watched σ SimulatedWorker) (notes : List Note) (act : Act σ) :
    Decidable (s.Spares notes act) :=
  decidable_of_iff (act.sparesStatuses = true ∧ ∀ request ∈ s.request? act,
      ∀ graph ∈ request.graph? s.pipeline.engine.core.names, ∀ id ∈ graph.members,
        finishedTimes notes id = 0)
    ⟨fun ⟨statuses, fresh⟩ => ⟨statuses, fresh⟩, fun ⟨statuses, fresh⟩ => ⟨statuses, fresh⟩⟩

/-- What can come of a launch with the simulated worker over an abiding store, whoever acts when,
as long as nobody else touches the statuses, and what there is to note of it, the latest first. At
any time the clock may be set forth or back. -/
inductive Tries (settings : LaunchSettings) (work : WorkerSettings) :
    List Note → Watched σ SimulatedWorker → Prop where
  | launch (store : σ) (abides : Abides store ∅) (now : Instant) :
      Tries settings work [] ⟨.launch settings store (.new work) now, now, now, now⟩
  | clock {notes : List Note} {s : Watched σ SimulatedWorker} (tries : Tries settings work notes s)
      (now : Instant) : Tries settings work notes { s with clock := now }
  | act {notes : List Note} {s after : Watched σ SimulatedWorker}
      (tries : Tries settings work notes s) {act : Act σ} (acted : s.act? act = some after)
      (spares : s.Spares notes act) : Tries settings work (s.notesOf act ++ notes) after

theorem inStep_launch {store : σ} (abides : Abides store ∅) (now : Instant) :
    Pipeline.InStep (.launch settings store (.new work) now) work [] := by
  let launched : Engine σ := ⟨.new settings.names settings.algorithm, store⟩
  let limited := (launched.apply now (.setLimit settings.limit)).2
  have fresh : launched.core.Filed := Core.filed_new ..
  have nothing : {id | launched.core.Unfinished id} = ∅ := by
    refine Set.eq_empty_iff_forall_notMem.mpr fun id ⟨op, held, _⟩ => ?_
    simp [launched, Core.new] at held
  have first : Abides limited.store {id | limited.core.Unfinished id} :=
    Engine.apply_abides now _ fresh (nothing.symm ▸ abides)
  have filed : limited.core.Filed :=
    (launched.apply_answers now (.setLimit settings.limit) fresh).filed fresh
  exact {
    balanced := (Pipeline.accounted_launch store (SimulatedWorker.new work) now).balanced
    free := rfl
    abides := Engine.apply_abides now (.suspend settings.suspendCount) filed first
    settings := rfl
    counted := fun id => Std.ExtTreeMap.getD_empty
    due := .nil
    ended := fun id => rfl
    failed := fun id => Nat.zero_le _
    through := fun id finished => (finished rfl).elim
    unfinished := fun id unfinished => rfl
    queued := fun graph listed => (List.not_mem_nil listed).elim }

theorem Tries.inStep (tries : Tries settings work notes s) : s.pipeline.InStep work notes := by
  induction tries with
  | launch store abides now => exact inStep_launch abides now
  | clock tries now ih => exact ih
  | @act notes s after tries act acted spares ih =>
    obtain ⟨works, free⟩ := works_of_act ih.balanced.filed ih.free spares.statuses acted
    generalize s.notesOf act = new at works
    cases works with
    | nothing retired engine transit worker reports =>
      exact ih.nothing retired engine transit worker reports free
    | asks request made silent engine transit worker reports =>
      exact ih.asks silent (spares.fresh request made) engine transit worker reports free
    | reports index report found engine transit worker reports =>
      exact ih.reported found engine transit worker reports free
    | handsOver op due engine transit worker reports =>
      exact ih.handsOver engine transit worker reports free

/-- Whatever is reported in a run is the end of an attempt. -/
theorem Tries.concludes (tries : Tries settings work notes s) {later earlier : List Note}
    {entry : Entry} {now : Instant} {request : Request} {id : OperationId}
    (split : notes = later ++ .answered entry :: earlier)
    (asked : entry.call = .request now request) (reported : request.outcome? = some id) :
    entry.Concludes work earlier now request id := by
  induction tries generalizing later with
  | launch => simp at split
  | clock tries now ih => exact ih split
  | @act notes s after tries act acted spares ih =>
    have inStep := tries.inStep
    obtain ⟨works, -⟩ :=
      works_of_act inStep.balanced.filed inStep.free spares.statuses acted
    generalize s.notesOf act = new at works split
    cases works with
    | nothing => exact ih split
    | asks other made silent =>
      rcases List.cons_eq_append_iff.mp split with ⟨-, same⟩ | ⟨later, -, rest⟩
      · cases same
        cases asked
        rw [silent] at reported
        cases reported
      · exact ih rest
    | reports index report found =>
      rcases List.cons_eq_append_iff.mp split with ⟨-, same⟩ | ⟨later, -, rest⟩
      · cases same
        cases asked
        obtain ⟨other, handed, made, -⟩ := inStep.report found
        have concludes := inStep.concludes handed s.clock made
        cases concludes.about.1.symm.trans reported
        exact concludes
      · exact ih rest
    | handsOver =>
      rcases List.cons_eq_append_iff.mp split with ⟨-, same⟩ | ⟨later, -, rest⟩
      · cases same
      · exact ih rest

/-- When nothing is queued any more, what has been queued has been tried until it succeeded. -/
theorem Tries.through (tries : Tries settings work notes s)
    (empty : s.pipeline.engine.core.queue.graphs = []) {graph : Graph} {id : OperationId}
    (queued : graph ∈ graphsIn notes) (member : id ∈ graph.members) :
    handedTimes notes id = work.failFirst + 1 ∧ resetTimes notes id = work.failFirst := by
  have inStep := tries.inStep
  have gone : ¬ s.pipeline.engine.core.Unfinished id := by
    rintro ⟨op, held, -⟩
    obtain ⟨graph, listed, -⟩ := inStep.balanced.filed.graph_of held
    rw [empty] at listed
    exact List.not_mem_nil listed
  have left : id ∉ withWorker notes := fun handed => gone (inStep.running handed).2
  obtain ⟨once, failures⟩ :=
    inStep.through id ((inStep.queued graph queued id member).resolve_left gone)
  have times := inStep.ended id
  rw [List.count_eq_zero_of_not_mem left] at times
  omega

/-- The worker is handed an operation as often as it has counted. What it reports is the end of an
attempt, and never rejected: the first attempts are failures, as many as the plan sets, and give the
operation back with a hold; the next one completes it. So once a plan is queued whole and nothing is
queued any more, each of its operations was given back that often, and handed over once more. -/
theorem tried_until_through {p : Plan} {fresh : Nat → OperationId}
    (owns : settings.names.owns p.name = true) (tries : Tries settings p.worker notes s) :
    (∀ id, s.pipeline.worker.attemptsAt id = handedTimes notes id ∧
      handedTimes notes id ≤ p.worker.failFirst + 1) ∧
    (∀ (later earlier : List Note) (entry : Entry) (now : Instant) (request : Request)
      (id : OperationId), notes = later ++ .answered entry :: earlier →
        entry.call = .request now request → request.outcome? = some id →
        entry.Concludes p.worker earlier now request id) ∧
    (s.pipeline.engine.core.queue.graphs = [] →
      (∀ graph ∈ graphsIn notes, ∀ id ∈ graph.members,
        handedTimes notes id = p.worker.failFirst + 1 ∧
          resetTimes notes id = p.worker.failFirst) ∧
      ((∀ batch ∈ (PlanSource.ofPlan fresh p).restore settings.names,
          batch.graphFor settings.names ∈ graphsIn notes) →
        ∀ name ∈ p.operationNames, ∃ id, (PlanSource.ofPlan fresh p).idOf? name = some id ∧
          handedTimes notes id = p.worker.failFirst + 1 ∧
          resetTimes notes id = p.worker.failFirst)) := by
  have inStep := tries.inStep
  refine ⟨fun id => ⟨inStep.counted id, ?_⟩, fun later earlier entry now request id split asked
    reported => tries.concludes split asked reported, fun empty =>
    ⟨fun graph queued id member => tries.through empty queued member,
      fun whole name member => ?_⟩⟩
  · exact inStep.handedTimes_le id
  · obtain ⟨planned, listed, rfl⟩ := List.mem_map.mp member
    obtain ⟨graph, inPlan, plannedMember⟩ := List.mem_flatMap.mp listed
    obtain ⟨id, found⟩ : ∃ id, (PlanSource.ofPlan fresh p).idOf? planned.name = some id :=
      PlanSource.exists_idOf? member
    have inside : id ∈ ((PlanSource.batchOf fresh p graph).graphFor settings.names).members :=
      (PlanSource.mem_graphFor owns).mpr ⟨planned, plannedMember, found⟩
    have queued := whole _ (PlanSource.batchOf_mem_restore owns inPlan inside)
    exact ⟨id, found, tries.through empty queued inside⟩

/-- What comes of some acts, and of what was noted before, if they spare the statuses and can be
done. -/
def tryAll? (notes : List Note) (s : Watched σ SimulatedWorker) :
    List (Act σ) → Option (List Note × Watched σ SimulatedWorker)
  | [] => some (notes, s)
  | act :: rest =>
    if s.Spares notes act then
      (s.act? act).bind fun after => tryAll? (s.notesOf act ++ notes) after rest
    else none

theorem Tries.acts (tries : Tries settings work notes s) {acts : List (Act σ)}
    {noted : List Note} (acted : s.tryAll? notes acts = some (noted, after)) :
    Tries settings work noted after := by
  induction acts generalizing notes s with
  | nil =>
    cases acted
    exact tries
  | cons act rest ih =>
    rw [tryAll?] at acted
    split at acted
    · rename_i spares
      obtain ⟨next, first, others⟩ := Option.bind_eq_some_iff.mp acted
      exact ih (tries.act first spares) others
    · cases acted

end Watched

/-- A plan of one upload that fails once. -/
def failsOnce : Plan where
  name := "photos"
  algorithm := .flatGraph
  limit := 8
  previousNames := []
  worker := ⟨50, 1, 200⟩
  graphs := [⟨1, [⟨"upload", 0, [], .null⟩]⟩]

/-- The upload is handed to the worker, which gives it back when its time is up. The timer sleeps
until the hold is over and starts the upload again; the next report completes it. -/
def tryTwice : List (Act Memory) :=
  ((PlanSource.ofPlan .ofNat failsOnce).restore (.new "photos" [])).map
    (fun batch => .call (.restore batch)) ++ [
    .move (.deliver 0), .move (.deliver 0), .move (.deliver 0), .move (.deliver 0),
    .move .dispatch, .move .dispatch, .move .attend, .move .attend, .move .attend,
    .advance (Instant.first.after (.ofMillis 50)), .move (.report 0),
    .move (.deliver 0), .move (.deliver 0), .move .attend, .move .attend,
    .advance (Instant.first.after (.ofMillis 250)), .move .expire, .move .attend, .move .dispatch,
    .advance (Instant.first.after (.ofMillis 300)), .move (.report 0)]

/-- The notes of these acts and the state that they lead to. -/
def afterTryTwice : Option (List Note × Watched Memory SimulatedWorker) :=
  let settings : LaunchSettings := ⟨.new "photos" [], .flatGraph, 8, 0, 64⟩
  Watched.tryAll? []
    ⟨.launch settings .empty (.new failsOnce.worker) .first, .first, .first, .first⟩ tryTwice

theorem upload_tried_twice : ∃ (notes : List Note) (s : Watched Memory SimulatedWorker),
    afterTryTwice = some (notes, s) ∧ s.pipeline.engine.core.queue.graphs = [] ∧
      ∃ id, (PlanSource.ofPlan .ofNat failsOnce).idOf? "upload" = some id ∧
        s.pipeline.worker.attemptsAt id = 2 ∧ handedTimes notes id = 2 ∧
        resetTimes notes id = 1 := by
  have computed : afterTryTwice.any (fun (notes, s) =>
      s.pipeline.engine.core.queue.graphs = [] ∧
        ∀ batch ∈ (PlanSource.ofPlan .ofNat failsOnce).restore (.new "photos" []),
          batch.graphFor (.new "photos" []) ∈ graphsIn notes) = true := by decide +kernel
  obtain ⟨⟨notes, s⟩, reached, facts⟩ := (Option.any_eq_true ..).mp computed
  obtain ⟨empty, whole⟩ := of_decide_eq_true facts
  have abides : Abides Memory.empty ∅ :=
    Memory.Serves.abides ⟨Memory.indexed_empty, rfl, nofun⟩
  have tries := (Watched.Tries.launch Memory.empty abides .first).acts reached
  have owns : (Names.new "photos" []).owns failsOnce.name = true := by decide +kernel
  obtain ⟨counted, -, through⟩ := Watched.tried_until_through owns tries
  obtain ⟨id, found, handed, resets⟩ := (through empty).2 whole "upload" (by decide +kernel)
  exact ⟨notes, s, reached, empty, id, found, (counted id).1.trans handed, handed, resets⟩

end CommitPipeline
