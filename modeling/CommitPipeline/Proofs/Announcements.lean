import CommitPipeline.Pipeline.Move
import CommitPipeline.Proofs.NextHold
import CommitPipeline.Store.Memory

/-! What a pipeline tells of its changes. It remembers whether it was active when it last told, and
tells again exactly when that is no longer so; every other change is told by the call that makes it.
So somebody who asks again whenever he is told something misses no state that lasts. -/
namespace CommitPipeline

/-- A step tells of all that is different in the state after a call. Activity is told exactly when
it changes, and so is the suspend count, unless it is as high as it can be. -/
structure Step.Announces (step : Step) (before after : Core) : Prop where
  activity : step.events.activeStatusChanged = true ↔ after.isActive ≠ before.isActive
  suspension : before.suspendCount < maxCount →
    (step.events.suspendCountChanged = true ↔ after.suspendCount ≠ before.suspendCount)
  graphs : after.queue.graphs ≠ before.queue.graphs → step.events.queueChanged = true
  operations : ∀ id : OperationId, after.table[id]? ≠ before.table[id]? →
    step.events.queueChanged = true
  dispatched : step.dispatched ≠ [] → step.events.queueChanged = true

namespace Core
variable {c after : Core} {now : Instant} {request : Request} {change : Change}
  {operations : List Operation}

/-- Whether a request asks for what is the case already: the limit or the hold as it is, no
suspension at all, or the end of one that is not there. -/
def AsksForNothing (c : Core) : Request → Prop
  | .setLimit limit => limit = c.limit
  | .setHold id hold => c.holdOf id = .ok hold
  | .suspend count => count = 0
  | .resume => c.suspendCount = 0
  | _ => False

/-- Exactly those requests are admitted without a change. -/
theorem changeFor_eq_none_iff :
    c.changeFor now request = .ok none ↔ c.AsksForNothing request := by
  cases request with
  | append | restore | complete | skip | reset | forceActive =>
    refine ⟨fun idle => ?_, False.elim⟩
    obtain ⟨change, -, made⟩ := except_bind_ok.mp idle
    cases made
  | setHold id hold =>
    simp only [changeFor, AsksForNothing]
    constructor
    · intro idle
      obtain ⟨current, read, decided⟩ := except_bind_ok.mp idle
      split at decided
      · rename_i same
        rw [read, same]
      · cases decided
    · intro read
      exact except_bind_ok.mpr ⟨hold, read, if_pos rfl⟩
  | setLimit limit =>
    simp only [changeFor, AsksForNothing]
    split <;> simp_all
  | suspend count =>
    simp only [changeFor, AsksForNothing]
    split <;> simp_all
  | resume =>
    simp only [changeFor, AsksForNothing]
    split <;> simp_all
  | dispatch =>
    refine ⟨fun idle => ?_, False.elim⟩
    cases idle

/-! ### Activity -/

/-- The pipeline has told its subscribers whether it is active. -/
def Noted (c : Core) : Prop := c.wasActive = c.isActive

theorem noted_new (names : Names) (algorithm : Algorithm) : (new names algorithm).Noted := by
  have idle : (new names algorithm).table.values = [] := rfl
  simp only [Noted, isActive, hasActive, pendingCount, idle]
  simp [new]

theorem noted_settled (c : Core) (operations : List Operation) : (c.settled operations).Noted := rfl

theorem Noted.answered {answer : Except Error Step} (noted : c.Noted)
    (answers : c.Answers now request answer after) : after.Noted := by
  cases answers with
  | rejected | idle => exact noted
  | accepted admitted dispatches => exact noted_settled _ _

theorem Admits.wasActive (admitted : c.Admits now request change) :
    change.core.wasActive = c.wasActive := by
  cases admitted <;> rfl

/-- At the end of a call activity is compared with what was told last. -/
theorem settledEvents_activity (c : Core) (events : EventSet) (operations : List Operation) :
    (c.settledEvents events operations).activeStatusChanged =
      ((c.settled operations).isActive != c.wasActive) := by
  have before : (c.prune.2.startAll operations).wasActive = c.wasActive := by
    rw [startAll_eq]
    exact pruned_wasActive c
  rw [← before]
  rfl

/-! ### The suspend count -/

/-- A request tells of the suspend count exactly when it changes it, if there is room above it. -/
theorem Admits.suspension (admitted : c.Admits now request change)
    (room : c.suspendCount < maxCount) :
    change.events.suspendCountChanged = true ↔ change.core.suspendCount ≠ c.suspendCount := by
  have unchanged {events : EventSet} (silent : events.suspendCountChanged = false) :
      events.suspendCountChanged = true ↔ c.suspendCount ≠ c.suspendCount := by
    simp [silent]
  cases admitted with
  | append | restore =>
    refine unchanged ?_
    simp only [queueBatch]
    split <;> rfl
  | complete | skip | reset | forceActive | setHold | setLimit | dispatch => exact unchanged rfl
  | @suspend count positive =>
    refine iff_of_true rfl ?_
    simp only
    omega
  | resume suspended =>
    refine iff_of_true rfl ?_
    simp only
    omega

theorem Answers.of_error {error : Error} (answers : c.Answers now request (.error error) after) :
    after = c := by
  cases answers
  rfl

theorem Answers.announces {step : Step} (answers : c.Answers now request (.ok step) after)
    (noted : c.Noted) : step.Announces c after := by
  have loud (differs : ¬ (after.queue.graphs = c.queue.graphs ∧ after.table = c.table ∧
      step.dispatched = [])) : step.events.queueChanged = true := by
    by_contra silent
    exact differs (answers.unchanged (Bool.eq_false_iff.mpr silent))
  refine ⟨?activity, ?suspension, fun differs => loud fun same => differs same.1,
    fun id differs => loud fun same => differs (by rw [same.2.1]),
    fun some => loud fun same => some same.2.2⟩
  case activity =>
    cases answers with
    | idle => simp [Step.empty, EventSet.none]
    | accepted admitted dispatches =>
      rw [settledEvents_activity, admitted.wasActive, noted]
      exact bne_iff_ne
  case suspension =>
    intro room
    cases answers with
    | idle => simp [Step.empty, EventSet.none]
    | accepted admitted dispatches =>
      rw [settled_suspendCount]
      exact admitted.suspension room

end Core

section Run
variable {σ ω : Type} [OperationStore σ] {names : Names} {algorithm : Algorithm}
  {history : List Entry} {e : Engine σ}

theorem Run.noted (run : Run names algorithm history e) : e.core.Noted := by
  induction run with
  | launch store => exact Core.noted_new names algorithm
  | @call history e run store call ih =>
    cases call with
    | request now request =>
      exact ih.answered (Engine.apply_answers ⟨e.core, store⟩ now request run.sound.filed)
    | retireMissing batches => exact ih

/-- In every state of every run a pipeline has told whether it is active, and every call tells of
what it changes. A call that asks for nothing tells nothing and starts nothing, and a call that is
rejected leaves the pipeline as it was and its handle with nothing to deliver. -/
theorem changes_announced (run : Run names algorithm history e) (store : σ) (call : Call) :
    let before : Engine σ := ⟨e.core, store⟩
    let after := before.call call
    e.core.wasActive = e.core.isActive ∧ after.2.core.wasActive = after.2.core.isActive ∧
      (∀ step, after.1 = .ok step → step.Announces e.core after.2.core) ∧
      ∀ (now : Instant) (request : Request), call = .request now request →
        (e.core.AsksForNothing request → after = (.ok .empty, before)) ∧
        ∀ error, after.1 = .error error → after.2.core = e.core ∧
          ∀ p : Pipeline σ ω, p.engine = before →
            p.call now request = (.error error, { p with engine := after.2 }) := by
  intro before after
  have filed : before.core.Filed := run.sound.filed
  refine ⟨run.noted, (run.call store call).noted, fun step answered => ?_, ?_⟩
  · cases call with
    | request now request =>
      have answers := before.apply_answers now request filed
      rw [show (before.apply now request).1 = .ok step from answered] at answers
      exact answers.announces run.noted
    | retireMissing batches =>
      cases answered
      refine ⟨?_, fun _ => ?_, fun differs => (differs rfl).elim,
        fun id differs => (differs rfl).elim, fun some => (some rfl).elim⟩
      · exact iff_of_false Bool.false_ne_true fun differs => differs rfl
      · exact iff_of_false Bool.false_ne_true fun differs => differs rfl
  · rintro now request rfl
    refine ⟨fun nothing => Engine.apply_idle (Core.changeFor_eq_none_iff.mpr nothing), ?_⟩
    intro error rejected
    have answers := before.apply_answers now request filed
    rw [show (before.apply now request).1 = .error error from rejected] at answers
    refine ⟨answers.of_error, fun p same => ?_⟩
    have answered : p.engine.apply now request = (.error error, after.2) := by
      rw [same]
      exact Prod.ext rejected rfl
    simp only [Pipeline.call, Pipeline.change, answered]

end Run

/-- Two commits of one operation each, the latest first. -/
def commitAfterCommit : List Call :=
  [.request .first (.append 2 [.new (.ofNat 2)] []),
    .request .first (.append 1 [.new (.ofNat 1)] [])]

/-- With the first operation the first commit is through and the next operation starts, so the
pipeline is as active as it was and tells of the queue alone. -/
theorem next_commit_without_pause :
    let e := (runOf (.new "uploads" []) .commitGraph Memory.empty commitAfterCommit).2
    let after := e.call (.request .first (.complete (.ofNat 1)))
    ∃ step, after.1 = .ok step ∧ step.Announces e.core after.2.core ∧
      step.dispatched.map (·.id) = [.ofNat 2] ∧ step.events = .queue ∧
      e.core.isActive = true ∧ after.2.core.isActive = true := by
  intro e after
  have told : after.1.map (fun step => (step.dispatched.map (·.id), step.events)) =
      .ok ([.ofNat 2], .queue) := by decide +kernel
  obtain ⟨-, -, announced, -⟩ := changes_announced (ω := Unit)
    (Run.of_calls (.new "uploads" []) .commitGraph Memory.empty commitAfterCommit) e.store
    (.request .first (.complete (.ofNat 1)))
  cases answered : after.1 with
  | error error =>
    rw [answered] at told
    cases told
  | ok step =>
    rw [answered] at told
    obtain ⟨dispatched, events⟩ := Prod.mk.inj (Except.ok.inj told)
    exact ⟨step, rfl, announced step answered, dispatched, events, by decide +kernel,
      by decide +kernel⟩

end CommitPipeline
