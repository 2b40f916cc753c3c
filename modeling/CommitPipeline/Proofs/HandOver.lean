import CommitPipeline.Proofs.Accounting
import CommitPipeline.Proofs.HoldTimer
import CommitPipeline.Worker.Recorder

/-! What the worker is handed. Callers, the dispatcher, the timer and the worker act in any order,
as long as the worker does not break down and reports only on what it has, and nobody lowers the
limit. Whatever is started is handed over once, which the worker's own record of its starts tells,
and the worker never has more than the limit allows. -/
namespace CommitPipeline

/-- Whether the dispatcher has broken down. -/
def Dispatcher.isEnded : Dispatcher → Bool
  | .ended => true
  | .idle | .serving .. => false

theorem Dispatcher.isEnded_iff {d : Dispatcher} : d.isEnded = true ↔ d = .ended := by
  cases d <;> simp [isEnded]

namespace Watched
variable {σ ω : Type} {s after : Watched σ ω} {settings : LaunchSettings} {worker : ω}
  {notes : List Note}

/-- The request that an act makes. -/
def request? (s : Watched σ ω) : Act σ → Option Request
  | .call request => some request
  | .move move => s.pipeline.requestOf move
  | .advance _ | .retireMissing _ | .meddle _ => none

/-- The worker reports only on what it has, and nobody lowers the limit. -/
structure Allowed (s : Watched σ ω) (notes : List Note) (act : Act σ) : Prop where
  reported : ∀ request ∈ s.request? act, ∀ id ∈ request.outcome?,
    id ∈ s.pipeline.engine.core.active → id ∈ withWorker notes
  raised : ∀ request ∈ s.request? act, ∀ limit ∈ request.limit?,
    s.pipeline.engine.core.limit ≤ limit

instance (s : Watched σ ω) (notes : List Note) (act : Act σ) : Decidable (s.Allowed notes act) :=
  decidable_of_iff ((∀ request ∈ s.request? act, ∀ id ∈ request.outcome?,
      id ∈ s.pipeline.engine.core.active → id ∈ withWorker notes) ∧
    ∀ request ∈ s.request? act, ∀ limit ∈ request.limit?, s.pipeline.engine.core.limit ≤ limit)
    ⟨fun ⟨reported, raised⟩ => ⟨reported, raised⟩, fun ⟨reported, raised⟩ => ⟨reported, raised⟩⟩

variable [OperationStore σ]

/-- What there is to note of an act. -/
def notesOf (s : Watched σ ω) : Act σ → List Note
  | .call request => [.answered (s.pipeline.entryFor s.clock request)]
  | .move move => s.pipeline.notes s.clock move
  | .advance _ | .retireMissing _ | .meddle _ => []

variable [Worker ω]

/-- What can come of a state, whoever acts when, and what there is to note of it, the latest first.
At any time the clock may be set forth or back. -/
inductive LeadsTo (s : Watched σ ω) : List Note → Watched σ ω → Prop where
  | refl : LeadsTo s [] s
  | clock {notes : List Note} {after : Watched σ ω} (leads : LeadsTo s notes after)
      (now : Instant) : LeadsTo s notes { after with clock := now }
  | act {notes : List Note} {after next : Watched σ ω} (leads : LeadsTo s notes after)
      {act : Act σ} (acted : after.act? act = some next) :
      LeadsTo s (after.notesOf act ++ notes) next

theorem LeadsTo.trans {between : Watched σ ω} {later : List Note} (first : s.LeadsTo notes between)
    (second : between.LeadsTo later after) : s.LeadsTo (later ++ notes) after := by
  induction second with
  | refl => exact first
  | clock _ now ih => exact ih.clock now
  | act _ acted ih =>
    rw [List.append_assoc]
    exact ih.act acted

/-- A worker that keeps a record is started on what an act hands over, and on nothing else. -/
theorem started_of_act {s after : Watched σ (Recorder ω)} {act : Act σ}
    (acted : s.act? act = some after) :
    after.pipeline.worker.started =
      s.pipeline.worker.started ++ (handOvers (s.notesOf act)).map (·.id) := by
  cases ensues_of_act? acted with
  | advance | retireMissing | meddle => exact (List.append_nil _).symm
  | call called =>
    rw [called.worker]
    exact (List.append_nil _).symm
  | @move move _ made =>
    have worker := made.worker
    rw [notesOf, Pipeline.notes]
    cases hands : s.pipeline.handsOver? move with
    | some op =>
      rw [hands] at worker
      exact congrArg Recorder.started worker
    | none =>
      rw [hands] at worker
      rw [worker]
      cases s.pipeline.requestOf move <;> exact (List.append_nil _).symm

/-- Whatever happens, the record of a worker grows by what is noted as handed over. -/
theorem LeadsTo.started {s after : Watched σ (Recorder ω)} (leads : s.LeadsTo notes after) :
    after.pipeline.worker.started =
      s.pipeline.worker.started ++ (handOvers notes).map (·.id) := by
  induction leads with
  | refl => exact (List.append_nil _).symm
  | clock leads now ih => exact ih
  | act leads acted ih =>
    rw [started_of_act acted, ih, handOvers_append, List.map_append, List.append_assoc]

/-- What can come of launching a pipeline for a worker, whoever acts when, and what there is to note
of it, the latest first. At any time the clock may be set forth or back. -/
inductive Attended (settings : LaunchSettings) (worker : ω) : List Note → Watched σ ω → Prop where
  | launch (store : σ) (now : Instant) :
      Attended settings worker [] ⟨.launch settings store worker now, now, now, now⟩
  | clock {notes : List Note} {s : Watched σ ω} (attended : Attended settings worker notes s)
      (now : Instant) : Attended settings worker notes { s with clock := now }
  | act {notes : List Note} {s after : Watched σ ω} (attended : Attended settings worker notes s)
      {act : Act σ} (acted : s.act? act = some after) (allowed : s.Allowed notes act)
      (alive : after.pipeline.dispatcher ≠ .ended) :
      Attended settings worker (s.notesOf act ++ notes) after

theorem Attended.leads (attended : Attended settings worker notes s) :
    ∃ (store : σ) (now : Instant),
      LeadsTo ⟨.launch settings store worker now, now, now, now⟩ notes s := by
  induction attended with
  | launch store now => exact ⟨store, now, .refl⟩
  | clock _ later ih =>
    obtain ⟨store, now, leads⟩ := ih
    exact ⟨store, now, leads.clock later⟩
  | act _ acted _ _ ih =>
    obtain ⟨store, now, leads⟩ := ih
    exact ⟨store, now, leads.act acted⟩

/-- What an act amounts to: nothing is started or handed over, or a request is answered, or an
operation is handed over. -/
inductive Does (s after : Watched σ ω) (act : Act σ) : List Note → Prop where
  | nothing (retired : IdSet)
      (core : after.pipeline.engine.core = { s.pipeline.engine.core with retired })
      (transit : after.pipeline.inTransit = s.pipeline.inTransit) : Does s after act []
  | answers (request : Request) (made : s.request? act = some request)
      (core : after.pipeline.engine.core = (s.pipeline.engine.apply s.clock request).2.core)
      (transit : after.pipeline.inTransit = s.pipeline.inTransit +
        (s.pipeline.entryFor s.clock request).dispatched) :
      Does s after act [.answered (s.pipeline.entryFor s.clock request)]
  | handsOver (op : Operation) (core : after.pipeline.engine.core = s.pipeline.engine.core)
      (transit : after.pipeline.inTransit + {op} = s.pipeline.inTransit) :
      Does s after act [.handedOver op]

theorem does_of_act (filed : s.pipeline.engine.core.Filed)
    (alive : s.pipeline.dispatcher ≠ .ended) {act : Act σ} (acted : s.act? act = some after)
    (stillAlive : after.pipeline.dispatcher ≠ .ended) : s.Does after act (s.notesOf act) := by
  cases ensues_of_act? acted with
  | advance | retireMissing | meddle => exact .nothing _ rfl rfl
  | @call request _ called =>
    obtain ⟨engine, -⟩ := called.keeps filed
    have transit := (called.transfers alive).transit stillAlive
    rw [handedOverIn_singleton, dispatchedIn_singleton] at transit
    exact .answers request rfl (congrArg Engine.core engine) ((add_zero _).symm.trans transit)
  | @move move _ made =>
    have transit := (made.transfers alive stillAlive).transit stillAlive
    obtain ⟨engine, -⟩ := made.timer_cases filed
    rcases s.pipeline.notes_cases s.clock move with ⟨silent, noted⟩ | ⟨request, asked, noted⟩ |
      ⟨op, silent, noted⟩
    · rw [silent] at engine
      rw [noted, handedOverIn_nil, dispatchedIn_nil, add_zero, add_zero] at transit
      rw [notesOf, noted]
      exact .nothing _ (congrArg Engine.core engine) transit
    · rw [asked] at engine
      rw [noted, handedOverIn_singleton, dispatchedIn_singleton] at transit
      rw [notesOf, noted]
      exact .answers request asked (congrArg Engine.core engine) ((add_zero _).symm.trans transit)
    · rw [silent] at engine
      rw [noted, handedOverIn_singleton, dispatchedIn_singleton] at transit
      rw [notesOf, noted]
      exact .handsOver op (congrArg Engine.core engine) (transit.trans (add_zero _))

theorem Attended.accounted (attended : Attended settings worker notes s) :
    s.pipeline.Accounted notes := by
  induction attended with
  | launch store now => exact Pipeline.accounted_launch store worker now
  | clock attended now ih => exact ih
  | @act notes s after attended act acted allowed alive ih =>
    have does := does_of_act ih.filed ih.alive acted alive
    generalize s.notesOf act = new at does
    cases does with
    | nothing retired core transit => exact ih.nothing retired core transit alive
    | answers request made core transit =>
      exact ih.answered (allowed.reported request made) (allowed.raised request made) core transit
        alive
    | handsOver op core transit => exact ih.handsOver core transit alive

/-- Whatever was activated from outside stays outside until it is given back. -/
theorem Attended.outside (attended : Attended settings worker notes s) {later earlier : List Note}
    {entry : Entry} {id : OperationId} (split : notes = later ++ .answered entry :: earlier)
    (forced : entry.accepted? = some (.forceActive id))
    (notFinal : ∀ note ∈ later, note.finalized? ≠ some id) : s.pipeline.Outside later id := by
  induction attended generalizing later with
  | launch => simp at split
  | clock attended now ih => exact ih split notFinal
  | @act notes s after attended act acted allowed alive ih =>
    have accounted := attended.accounted
    have next := (attended.act acted allowed alive).accounted
    have does := does_of_act accounted.filed accounted.alive acted alive
    generalize s.notesOf act = new at does split next
    cases does with
    | nothing retired core transit => exact (ih split notFinal).nothing retired core transit
    | answers request made core transit =>
      -- Either this answer is the activation itself, or that lies further back.
      rcases List.cons_eq_append_iff.mp split with ⟨rfl, same⟩ | ⟨later, rfl, rest⟩
      · cases same
        have answers := Engine.apply_answers s.pipeline.engine s.clock request accounted.filed
        rw [← core] at answers
        exact next.outside (answers.forced accounted.tracked forced).1
      · obtain ⟨last, before⟩ := List.forall_mem_cons.mp notFinal
        exact (ih rest before).answered accounted.filed core transit last
    | handsOver op core transit =>
      rcases List.cons_eq_append_iff.mp split with ⟨-, same⟩ | ⟨later, rfl, rest⟩
      · cases same
      · exact (ih rest (List.forall_mem_cons.mp notFinal).2).handsOver core transit

/-- The notes are true: a worker that keeps a record was started on the operations that are noted as
handed over, in that order. -/
theorem Attended.started {worker : Recorder ω} {s : Watched σ (Recorder ω)}
    (attended : Attended settings worker notes s) :
    s.pipeline.worker.started = worker.started ++ (handOvers notes).map (·.id) := by
  obtain ⟨store, now, leads⟩ := attended.leads
  exact leads.started

/-- What comes of some acts, and of what was noted before, if each of them is allowed and can be
done. -/
def attend? (notes : List Note) (s : Watched σ ω) :
    List (Act σ) → Option (List Note × Watched σ ω)
  | [] => some (notes, s)
  | act :: rest =>
    if s.Allowed notes act then
      (s.act? act).bind fun after =>
        if after.pipeline.dispatcher.isEnded then none
        else attend? (s.notesOf act ++ notes) after rest
    else none

theorem Attended.acts (attended : Attended settings worker notes s) {acts : List (Act σ)}
    {noted : List Note} (acted : s.attend? notes acts = some (noted, after)) :
    Attended settings worker noted after := by
  induction acts generalizing notes s with
  | nil =>
    cases acted
    exact attended
  | cons act rest ih =>
    rw [attend?] at acted
    split at acted
    · rename_i allowed
      obtain ⟨next, first, others⟩ := Option.bind_eq_some_iff.mp acted
      split at others
      · cases others
      · rename_i alive
        exact ih (attended.act first allowed (mt Dispatcher.isEnded_iff.mpr alive)) others
    · cases acted

/-- In every interleaving the worker is started once on each operation that is handed over, and what
is started by the dispatcher is handed over once or on its way; the worker's own record tells it.
What the worker has been handed and has not reported on is distinct and active, and there is never
more of it than the limit allows. Together with what is on its way it is what has a slot. An
operation that was activated from outside is handed over only when it has been given back and
started anew. -/
theorem handed_over_once {s : Watched σ (Recorder ω)}
    (attended : Attended settings (.new worker) notes s) :
    s.pipeline.worker.started = (handOvers notes).map (·.id) ∧
      (dispatchedIn notes).map (·.id) =
        s.pipeline.worker.started + s.pipeline.inTransit.map (·.id) ∧
      dispatchedIn notes = handedOverIn notes + s.pipeline.inTransit ∧
      (withWorker notes).Nodup ∧
      (∀ id ∈ withWorker notes, ∃ op, s.pipeline.engine.core.table[id]? = some op ∧
        op.status = .active) ∧
      (withWorker notes).length ≤ s.pipeline.engine.core.limit ∧
      (∀ id, id ∈ s.pipeline.engine.core.active ↔
        id ∈ s.pipeline.inTransit.map (·.id) ∨ id ∈ withWorker notes) ∧
      ∀ (later earlier : List Note) (entry : Entry) (id : OperationId),
        notes = later ++ .answered entry :: earlier →
        entry.accepted? = some (.forceActive id) → (∀ note ∈ later, note.finalized? ≠ some id) →
        ∀ (newer : List Note) (op : Operation) (between : List Note),
          later = newer ++ .handedOver op :: between → op.id = id → StartedAnew between op := by
  have accounted := attended.accounted
  have started : s.pipeline.worker.started = (handOvers notes).map (·.id) :=
    attended.started.trans (List.nil_append _)
  have slots (id : OperationId) : id ∈ s.pipeline.engine.core.active ↔
      id ∈ s.pipeline.inTransit.map (·.id) ∨ id ∈ withWorker notes :=
    (accounted.slots id).trans Multiset.mem_add
  have distinct : (withWorker notes).Nodup := (Multiset.nodup_add.mp accounted.distinct).2.1
  refine ⟨started, ?_, accounted.sent, distinct, fun id handed => ?_, ?_, slots,
    fun later earlier entry id split forced notFinal => ?_⟩
  · rw [accounted.sent, Multiset.map_add, ← coe_handOvers, Multiset.map_coe, started]
  · exact accounted.tracked.handedOut id ((slots id).mpr (.inr handed))
  · have held : withWorker notes ⊆ s.pipeline.engine.core.active.toList := fun id handed =>
      Std.ExtTreeSet.mem_toList.mpr ((slots id).mpr (.inr handed))
    calc (withWorker notes).length
        ≤ s.pipeline.engine.core.active.toList.length := (distinct.subperm held).length_le
      _ = s.pipeline.engine.core.active.size := Std.ExtTreeSet.length_toList
      _ ≤ s.pipeline.engine.core.limit := accounted.within
  · exact (attended.outside split forced notFinal).handed

end Watched

/-- One of two operations is started, and the other one is activated from outside and given back
while the first still runs. When the first is completed, the other takes its slot. -/
def secondGivenBack : List (Act Memory) := [
  .call (.append 1 [.new (.ofNat 1), .new (.ofNat 2)] []),
  .move (.deliver 0), .move .dispatch, .move .dispatch,
  .call (.forceActive (.ofNat 2)), .call (.reset (.ofNat 2) none), .call (.complete (.ofNat 1)),
  .move (.deliver 3), .move .dispatch]

/-- The notes of these acts and the state that they lead to. The starts of the worker are
recorded. -/
def afterSecondGivenBack : Option (List Note × Watched Memory (Recorder ScriptedWorker)) :=
  Watched.attend? []
    ⟨.launch oneAtATime .empty (.new ⟨.nothing, ∅⟩) .first, .first, .first, .first⟩ secondGivenBack

/-- The worker was started on either operation. The last notes tell that the second operation was
activated from outside, and that the worker was handed it after it had been given back and the first
one completed. -/
def secondHandedOver (s : Watched Memory (Recorder ScriptedWorker)) : List Note → Bool
  | .handedOver op :: completed :: given :: .answered forced :: earlier =>
    match forced.accepted? with
    | some (.forceActive id) =>
      s.pipeline.worker.started = [.ofNat 1, .ofNat 2] ∧
        id = .ofNat 2 ∧ op.id = .ofNat 2 ∧ completed.finalized? = some (.ofNat 1) ∧
        given.finalized? = none ∧
        withWorker (.handedOver op :: completed :: given :: .answered forced :: earlier) =
          [.ofNat 2]
    | _ => false
  | _ => false

theorem second_handed_over_anew :
    ∃ (s : Watched Memory (Recorder ScriptedWorker)) (op : Operation) (completed given : Note)
      (forced : Entry) (earlier : List Note),
      let notes := .handedOver op :: completed :: given :: .answered forced :: earlier
      afterSecondGivenBack = some (notes, s) ∧ op.id = .ofNat 2 ∧
        forced.accepted? = some (.forceActive op.id) ∧ withWorker notes = [op.id] ∧
        s.pipeline.worker.started = [.ofNat 1, .ofNat 2] ∧
        s.pipeline.worker.started = (handOvers notes).map (·.id) ∧
        (dispatchedIn notes).map (·.id) =
          s.pipeline.worker.started + s.pipeline.inTransit.map (·.id) ∧
        dispatchedIn notes = handedOverIn notes + s.pipeline.inTransit ∧
        (∃ op, s.pipeline.engine.core.table[OperationId.ofNat 2]? = some op ∧ op.status = .active) ∧
        StartedAnew [completed, given] op := by
  have computed : afterSecondGivenBack.any (fun (notes, s) => secondHandedOver s notes) = true := by
    decide +kernel
  obtain ⟨⟨notes, s⟩, reached, told⟩ := (Option.any_eq_true ..).mp computed
  change secondHandedOver s notes = true at told
  unfold secondHandedOver at told
  split at told
  · rename_i op completed given forced earlier
    split at told
    · rename_i id accepted
      obtain ⟨recorded, rfl, named, first, unfinished, has⟩ := of_decide_eq_true told
      have attended : Watched.Attended oneAtATime (.new ⟨.nothing, ∅⟩)
          (.handedOver op :: completed :: given :: .answered forced :: earlier) s :=
        (Watched.Attended.launch ..).acts reached
      obtain ⟨started, once, sent, -, running, -, -, anew⟩ := Watched.handed_over_once attended
      have notFinal : ∀ note ∈ [.handedOver op, completed, given],
          note.finalized? ≠ some (.ofNat 2) := by
        intro note member
        rcases List.mem_cons.mp member with rfl | member
        · exact (Option.some_ne_none _).symm
        · rcases List.mem_pair.mp member with rfl | rfl
          · rw [first]
            decide
          · rw [unfinished]
            exact (Option.some_ne_none _).symm
      refine ⟨s, op, completed, given, forced, earlier, reached, named, named ▸ accepted,
        named ▸ has, recorded, started, once, sent, running _ (has ▸ List.mem_cons_self), ?_⟩
      exact anew [.handedOver op, completed, given] earlier forced (.ofNat 2) rfl accepted notFinal
        [] op [completed, given] rfl named
    · cases told
  · cases told

end CommitPipeline
