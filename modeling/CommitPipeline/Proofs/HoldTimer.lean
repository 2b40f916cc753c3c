import CommitPipeline.Pipeline.Launch
import CommitPipeline.Proofs.Moves
import CommitPipeline.Store.Memory
import CommitPipeline.Worker.Scripted

/-! What the hold timer sleeps on. Callers, the dispatcher and the timer act in any order, and the
clock goes on between any two of their acts. Whenever the timer sleeps and nobody owes it a wake-up,
it sleeps on the holds that were still ahead when it last looked, and on no others: a hold that ends
after the pass that found it and before that look is lost. -/
namespace CommitPipeline

namespace Engine
variable {σ : Type} [OperationStore σ]

/-- Whether a request leads to a dispatch pass: it asks for a change, and the write of the change is
not refused. -/
def passes (e : Engine σ) (now : Instant) (request : Request) : Bool :=
  match e.core.changeFor now request with
  | .ok (some change) =>
    match (e.write change.write).1 with
    | .ok () => true
    | .error _ => false
  | _ => false

end Engine

/-- A pipeline with its clock and two notes: when the timer last looked for a hold, and when there
last was a dispatch pass. -/
structure Watched (σ ω : Type) where
  pipeline : Pipeline σ ω
  clock : Instant
  look : Instant
  pass : Instant

/-- What can happen at any time: the clock goes on, somebody calls, somebody else changes the store,
or one of the moves is made. -/
inductive Act (σ : Type) where
  | advance (later : Instant)
  | call (request : Request)
  | retireMissing (batches : List Batch)
  | meddle (store : σ)
  | move (move : Move)

namespace Watched
variable {σ ω : Type} {s after : Watched σ ω} {settings : LaunchSettings}

/-- The timer sleeps on what it saw when it last looked, unless a wake-up is on its way. -/
structure Sound (s : Watched σ ω) : Prop where
  filed : s.pipeline.engine.core.Filed
  asleep : ∀ deadline, s.pipeline.timer = .parked deadline → s.pipeline.Quiet →
    deadline = s.pipeline.engine.core.nextHold s.look

theorem Sound.keeps (sound : s.Sound) (filed : after.pipeline.engine.core.Filed)
    (look : after.look = s.look) (keeps : s.pipeline.Keeps after.pipeline) : after.Sound where
  filed
  asleep deadline parked quiet := by
    obtain ⟨before, same⟩ := keeps.2 quiet
    rw [same, look]
    exact sound.asleep deadline (keeps.1 ▸ parked) before

variable [OperationStore σ]

theorem Sound.filed_after (sound : s.Sound) (request : Option Request) :
    (s.pipeline.engineAfter s.clock request).core.Filed := by
  cases request with
  | none => exact sound.filed
  | some request =>
    exact (Engine.apply_answers s.pipeline.engine s.clock request sound.filed).filed sound.filed

theorem sound_launch (store : σ) (worker : ω) (now : Instant) :
    Sound ⟨.launch settings store worker now, now, now, now⟩ := by
  refine ⟨?_, fun deadline parked => ?_⟩
  · have fresh := Core.filed_new settings.names settings.algorithm
    have limited :=
      (Engine.apply_answers ⟨_, store⟩ now (.setLimit settings.limit) fresh).filed fresh
    exact (Engine.apply_answers _ now (.suspend settings.suspendCount) limited).filed limited
  · cases parked

/-- The time of the last pass once a request has been made. -/
def passAfter (s : Watched σ ω) (request : Option Request) : Instant :=
  if request.any (s.pipeline.engine.passes s.clock) then s.clock else s.pass

variable [Worker ω]

def act? (s : Watched σ ω) : Act σ → Option (Watched σ ω)
  | .advance later => if s.clock ≤ later then some { s with clock := later } else none
  | .call request => some { s with
      pipeline := (s.pipeline.call s.clock request).2
      pass := s.passAfter (some request) }
  | .retireMissing batches => some { s with
      pipeline := { s.pipeline with engine := s.pipeline.engine.retireMissing batches } }
  | .meddle store => some { s with
      pipeline := { s.pipeline with engine := { s.pipeline.engine with store } } }
  | .move move => (s.pipeline.move? s.clock move).map fun pipeline => { s with
      pipeline
      look := if s.pipeline.looks move then s.clock else s.look
      pass := s.passAfter (s.pipeline.requestOf move) }

/-- What each act makes of a state. -/
inductive Ensues (s : Watched σ ω) : Act σ → Watched σ ω → Prop where
  | advance {later : Instant} : Ensues s (.advance later) { s with clock := later }
  | call {request : Request} {pipeline : Pipeline σ ω}
      (called : s.pipeline.Calls s.clock request pipeline) :
      Ensues s (.call request) { s with pipeline, pass := s.passAfter (some request) }
  | retireMissing {batches : List Batch} : Ensues s (.retireMissing batches) { s with
      pipeline := { s.pipeline with engine := s.pipeline.engine.retireMissing batches } }
  | meddle {store : σ} : Ensues s (.meddle store) { s with
      pipeline := { s.pipeline with engine := { s.pipeline.engine with store } } }
  | move {move : Move} {pipeline : Pipeline σ ω} (made : s.pipeline.Makes s.clock move pipeline) :
      Ensues s (.move move) { s with
        pipeline
        look := if s.pipeline.looks move then s.clock else s.look
        pass := s.passAfter (s.pipeline.requestOf move) }

theorem ensues_of_act? {act : Act σ} (acted : s.act? act = some after) : s.Ensues act after := by
  cases act with
  | advance later =>
    simp only [act?] at acted
    split at acted
    · cases acted
      exact .advance
    · cases acted
  | call request =>
    cases acted
    exact .call (s.pipeline.calls s.clock request)
  | retireMissing batches =>
    cases acted
    exact .retireMissing
  | meddle store =>
    cases acted
    exact .meddle
  | move move =>
    obtain ⟨pipeline, made, rfl⟩ := Option.map_eq_some_iff.mp acted
    exact .move (Pipeline.makes_of_move? made)

/-- What can come of a launch, whoever acts when. -/
inductive Reachable (settings : LaunchSettings) : Watched σ ω → Prop where
  | launch (store : σ) (worker : ω) (now : Instant) :
      Reachable settings ⟨.launch settings store worker now, now, now, now⟩
  | act {s after : Watched σ ω} (reachable : Reachable settings s) {act : Act σ}
      (acted : s.act? act = some after) : Reachable settings after

theorem Sound.act (sound : s.Sound) {act : Act σ} (acted : s.act? act = some after) :
    after.Sound := by
  cases ensues_of_act? acted with
  | advance => exact ⟨sound.filed, sound.asleep⟩
  | @call request _ called =>
    obtain ⟨engine, keeps⟩ := called.keeps sound.filed
    refine sound.keeps ?_ rfl keeps
    rw [engine]
    exact sound.filed_after (some request)
  | retireMissing =>
    refine sound.keeps (sound.filed.of_continues rfl rfl rfl (.refl _)) rfl ⟨rfl, ?_⟩
    exact fun ⟨taken, callers, dispatcher⟩ => ⟨⟨taken, callers, dispatcher⟩, fun _ => rfl⟩
  | meddle =>
    refine sound.keeps sound.filed rfl ⟨rfl, ?_⟩
    exact fun ⟨taken, callers, dispatcher⟩ => ⟨⟨taken, callers, dispatcher⟩, fun _ => rfl⟩
  | @move _ pipeline made =>
    obtain ⟨engine, cases⟩ := made.timer_cases sound.filed
    have filed : pipeline.engine.core.Filed := by
      rw [engine]
      exact sound.filed_after _
    rcases cases with ⟨noLook, keeps⟩ | ⟨look, rfl⟩ | awake
    · exact sound.keeps filed (by simp [noLook]) keeps
    · refine ⟨filed, fun deadline parked _ => ?_⟩
      cases parked
      simp [look]
    · refine ⟨filed, fun deadline parked => ?_⟩
      change pipeline.timer = _ at parked
      rw [parked] at awake
      cases awake

theorem Reachable.sound (reachable : Reachable settings s) : s.Sound := by
  induction reachable with
  | launch store worker now => exact sound_launch store worker now
  | act reachable acted ih => exact ih.act acted

/-- What comes of some acts, if all of them can be done. -/
def acts? (s : Watched σ ω) : List (Act σ) → Option (Watched σ ω)
  | [] => some s
  | act :: rest => (s.act? act).bind (acts? · rest)

theorem Reachable.acts (reachable : Reachable settings s) {acts : List (Act σ)}
    (acted : s.acts? acts = some after) : Reachable settings after := by
  induction acts generalizing s with
  | nil =>
    cases acted
    exact reachable
  | cons act rest ih =>
    obtain ⟨next, first, others⟩ := Option.bind_eq_some_iff.mp acted
    exact ih (reachable.act first) others

/-- Whenever the timer sleeps and nobody owes it a wake-up, a hold is slept on exactly if it was
still ahead when the timer last looked; exactly then the timer can start the operation in time. -/
theorem asleep_covers_iff (reachable : Reachable settings s) {deadline : Option Instant}
    (parked : s.pipeline.timer = .parked deadline) (quiet : s.pipeline.Quiet) {id : OperationId}
    {hold : Instant} (holds : s.pipeline.engine.core.Holds id hold) :
    ((∃ earliest, deadline = some earliest ∧ earliest ≤ hold) ↔ s.look < hold) ∧
      ((∀ later, hold ≤ later → (s.pipeline.move? later .expire).isSome) ↔ s.look < hold) := by
  have covers := Core.nextHold_covers s.look holds
  rw [← reachable.sound.asleep deadline parked quiet] at covers
  refine ⟨covers, ?_⟩
  simp only [Pipeline.expire_isSome parked]
  constructor
  · exact fun inTime => covers.mp (inTime hold (Instant.le_refl hold))
  · intro ahead later due
    obtain ⟨earliest, sleeps, bound⟩ := covers.mpr ahead
    exact ⟨earliest, sleeps, Instant.le_trans bound due⟩

end Watched

namespace Delay

def nanosecond : Delay := ⟨0, 1, by decide⟩

def second : Delay := ⟨1, 0, by decide⟩

end Delay

/-- An operation is started, handed to a worker that does nothing, and given back for a delay; only
after a microsecond does the timer take up its wake-ups. -/
def givenBack (delay : Delay) : List (Act Memory) := [
  .call (.append 1 [.new (.ofNat 1)] []),
  .move (.deliver 0), .move (.deliver 0), .move (.deliver 0), .move (.deliver 0),
  .move .dispatch, .move .dispatch,
  .call (.reset (.ofNat 1) (some delay)),
  .move (.deliver 0), .move (.deliver 0),
  .advance (Instant.first.after .microsecond),
  .move .attend, .move .attend, .move .attend]

def oneAtATime : LaunchSettings := ⟨.new "uploads" [], .commitGraph, 1, 0, 64⟩

/-- The state after that, at the first instant of the clock but for the microsecond. -/
def afterGivenBack (delay : Delay) : Option (Watched Memory ScriptedWorker) :=
  Watched.acts? ⟨.launch oneAtATime .empty ⟨.nothing, ∅⟩ .first, .first, .first, .first⟩
    (givenBack delay)

theorem second_slept_on : ∃ (s : Watched Memory ScriptedWorker) (deadline : Option Instant),
    afterGivenBack .second = some s ∧ s.pipeline.timer = .parked deadline ∧
      s.pipeline.Quiet ∧
      s.pipeline.engine.core.Holds (.ofNat 1) (Instant.first.after .second) ∧
      (∃ earliest, deadline = some earliest ∧ earliest ≤ Instant.first.after .second) ∧
      ∀ later, Instant.first.after .second ≤ later →
        (s.pipeline.move? later .expire).isSome := by
  have computed : (afterGivenBack .second).any (fun s => s.pipeline.isStill ∧
      s.pipeline.timer.sleep? = some (some (Instant.first.after .second)) ∧
      s.pipeline.engine.core.Holds (.ofNat 1) (Instant.first.after .second) ∧
      s.look < Instant.first.after .second) = true := by decide +kernel
  obtain ⟨s, reached, facts⟩ := (Option.any_eq_true _ _).mp computed
  obtain ⟨still, asleep, holds, ahead⟩ := of_decide_eq_true facts
  have parked := Timer.sleep?_eq_some.mp asleep
  have quiet := Pipeline.quiet_of_isStill still
  have reachable : s.Reachable oneAtATime := (Watched.Reachable.launch ..).acts reached
  have covers := Watched.asleep_covers_iff reachable parked quiet holds
  exact ⟨s, _, reached, parked, quiet, holds, covers.1.mpr ahead, covers.2.mpr ahead⟩

/-- Every hold that was ahead at the last pass is slept on, whenever the timer sleeps and nobody
owes it a wake-up. -/
def Watched.CoversPass {σ ω : Type} (s : Watched σ ω) : Prop :=
  ∀ deadline, s.pipeline.timer = .parked deadline → s.pipeline.Quiet →
    ∀ id hold, s.pipeline.engine.core.Holds id hold → s.pass < hold →
      ∃ earliest, deadline = some earliest ∧ earliest ≤ hold

/-- A hold of a nanosecond ends before the timer looks for it. The operation is ready, yet nothing
will ever move but by a call from outside. -/
theorem nanosecond_lost : ∃ s : Watched Memory ScriptedWorker,
    afterGivenBack .nanosecond = some s ∧ s.Reachable oneAtATime ∧ ¬ s.CoversPass ∧
      .ofNat 1 ∈ s.pipeline.engine.core.ready s.clock ∧
      ∀ later move, s.pipeline.move? later move = none := by
  have computed : (afterGivenBack .nanosecond).any (fun s => s.pipeline.isStill ∧
      s.pipeline.timer.sleep? = some none ∧
      s.pipeline.engine.core.Holds (.ofNat 1) (Instant.first.after .nanosecond) ∧
      s.pass < Instant.first.after .nanosecond ∧
      .ofNat 1 ∈ s.pipeline.engine.core.ready s.clock) = true := by decide +kernel
  obtain ⟨s, reached, facts⟩ := (Option.any_eq_true _ _).mp computed
  obtain ⟨still, asleep, holds, ahead, ready⟩ := of_decide_eq_true facts
  have parked := Timer.sleep?_eq_some.mp asleep
  refine ⟨s, reached, (Watched.Reachable.launch ..).acts reached, fun covers => ?_, ready,
    fun later => Pipeline.move?_of_isStill still parked⟩
  obtain ⟨earliest, sleeps, -⟩ :=
    covers none parked (Pipeline.quiet_of_isStill still) _ _ holds ahead
  cases sleeps

end CommitPipeline
