import CommitPipeline.Pipeline.Waiter
import CommitPipeline.Proofs.Announcements
import CommitPipeline.Proofs.SendingOrder

/-! Waiting until a pipeline is drained. Between the change that drains it and the news of that
there is time, and in that time the waiter may subscribe, look and fall asleep as it likes. It never
sleeps in vain: if nothing waits for it to be told and the pipeline is drained, then somebody has
drained it since the last look and has yet to publish everything he has to tell of that. -/
namespace CommitPipeline

namespace Publisher

/-- A subscriber waits for nothing once it was told of as many events as were published. -/
theorem waiting_eq_nil_iff (p : Publisher) (s : Subscriber) :
    p.waiting s = [] ↔ p.count ≤ s.position := by
  have kept := p.kept_length
  have bound : p.kept.length ≤ p.count := by omega
  unfold waiting forgotten
  by_cases behind : s.position < p.count - p.kept.length
  · simp only [behind, if_true]
    constructor
    · intro nothing
      cases nothing
    · intro all
      omega
  · simp only [behind, if_false, List.map_eq_nil_iff, List.drop_eq_nil_iff]
    omega

/-- Nobody is told of events that were not published. -/
theorem tell?_position {p : Publisher} {s later : Subscriber} {notice : Notice}
    (told : p.tell? s = some (notice, later)) : later.position ≤ p.count := by
  have bound : p.kept.length ≤ p.count := by
    have := p.kept_length
    omega
  unfold tell? at told
  split at told
  · cases told
  · rename_i first rest line
    cases told
    unfold waiting forgotten at line
    by_cases behind : s.position < p.count - p.kept.length
    · simp only [behind, if_true, List.cons.injEq] at line
      rw [← line.1]
      simp only [Notice.width]
      omega
    · simp only [behind, if_false] at line
      obtain ⟨event, others, left, rfl, -⟩ := List.map_eq_cons_iff.mp line
      have some : s.position - (p.count - p.kept.length) < p.kept.length := by
        by_contra none
        rw [List.drop_eq_nil_of_le (Nat.not_lt.mp none)] at left
        cases left
      simp only [Notice.width]
      omega

end Publisher

/-- The events that the dispatcher is about to publish for the worker. -/
def Dispatcher.unpublished : Dispatcher → List Event
  | .serving _ _ delivery => delivery.events
  | .idle | .ended => []

/-- The events that the timer is about to publish. -/
def Timer.unpublished : Timer → List Event
  | .delivering delivery => delivery.events
  | .reading | .parked _ => []

theorem Delivery.events_of_isDone {delivery : Delivery} (done : delivery.isDone = true) :
    delivery.events = [] := by
  simp only [isDone, Bool.and_eq_true, List.isEmpty_iff] at done
  exact done.2

namespace Core
variable {c after : Core} {now : Instant} {request : Request} {answer : Except Error Step}

/-- A call that changes what is queued or whether the pipeline is active has something to tell. -/
theorem Answers.tells (answers : c.Answers now request answer after) (noted : c.Noted)
    (differs : ¬ (after.queue.graphs = c.queue.graphs ∧ after.isActive = c.isActive)) :
    ∃ step, answer = .ok step ∧ step.events.toList ≠ [] := by
  cases answer with
  | error error =>
    cases answers.of_error
    exact (differs ⟨rfl, rfl⟩).elim
  | ok step =>
    have announces := answers.announces noted
    refine ⟨step, rfl, fun nothing => ?_⟩
    have silent (event : Event) : step.events.contains event = false := by
      rw [← Bool.not_eq_true, ← EventSet.mem_toList, nothing]
      exact List.not_mem_nil
    have queue : step.events.queueChanged = false := silent .queueChanged
    have activity : step.events.activeStatusChanged = false := silent .activeStatusChanged
    refine differs ⟨(answers.unchanged queue).1, ?_⟩
    by_contra flips
    rw [announces.activity.mpr flips] at activity
    cases activity

end Core

namespace Pipeline
variable {σ ω : Type} {p after : Pipeline σ ω} {now : Instant} {request? : Option Request}
  {delivery : Delivery}

/-- Somebody is about to publish these events, one after the other. -/
def Owes (p : Pipeline σ ω) (events : List Event) : Prop :=
  (∃ delivery ∈ p.deliveries, delivery.events = events) ∨
    p.dispatcher.unpublished = events ∨ p.timer.unpublished = events

theorem deliver_events (p : Pipeline σ ω) (delivery : Delivery) :
    ((p.deliver delivery).1.events = delivery.events ∧
      (p.deliver delivery).2.publisher = p.publisher) ∨
    (p.deliver delivery).2.publisher.count = p.publisher.count + 1 := by
  obtain ⟨operations, wake, events⟩ := delivery
  cases operations with
  | cons op rest =>
    left
    refine ⟨rfl, ?_⟩
    simp only [deliver, send]
    split <;> rfl
  | nil =>
    cases wake with
    | true => exact .inl ⟨rfl, rfl⟩
    | false =>
      cases events with
      | nil => exact .inl ⟨rfl, rfl⟩
      | cons event rest => exact .inr rfl

theorem owe_owes (p : Pipeline σ ω) (some : delivery.events ≠ []) :
    (p.owe delivery).Owes delivery.events := by
  unfold owe
  split
  · rename_i done
    exact absurd (Delivery.events_of_isDone done) some
  · exact .inl ⟨delivery, List.mem_append_right _ List.mem_cons_self, rfl⟩

variable [OperationStore σ]

/-- What an act does to the events: either it publishes some, or everybody is about to publish what
he was, and what a request has to tell comes in addition. -/
structure Tells (p : Pipeline σ ω) (now : Instant) (request? : Option Request)
    (after : Pipeline σ ω) : Prop where
  count : p.publisher.count ≤ after.publisher.count
  keeps : after.publisher.count = p.publisher.count →
    ∀ events : List Event, events ≠ [] → p.Owes events → after.Owes events
  brings : ∀ request ∈ request?, ∀ step : Step, (p.engine.apply now request).1 = .ok step →
    step.events.toList ≠ [] → after.Owes step.events.toList

/-- An act that is not about events. -/
theorem Tells.of_frame (publisher : after.publisher = p.publisher)
    (keeps : ∀ events : List Event, events ≠ [] → p.Owes events → after.Owes events)
    (brings : ∀ request ∈ request?, ∀ step : Step, (p.engine.apply now request).1 = .ok step →
      step.events.toList ≠ [] → after.Owes step.events.toList) : p.Tells now request? after where
  count := publisher ▸ Nat.le_refl _
  keeps _ := keeps
  brings := brings

theorem Tells.of_silent (publisher : after.publisher = p.publisher)
    (keeps : ∀ events : List Event, events ≠ [] → p.Owes events → after.Owes events) :
    p.Tells now none after :=
  .of_frame publisher keeps fun request asked => by cases asked

theorem Tells.of_rejected {request : Request} {error : Error} {engine : Engine σ}
    (applied : p.engine.apply now request = (.error error, engine))
    (publisher : after.publisher = p.publisher)
    (keeps : ∀ events : List Event, events ≠ [] → p.Owes events → after.Owes events) :
    p.Tells now (some request) after := by
  refine .of_frame publisher keeps fun other asked step answered => ?_
  cases asked
  rw [applied] at answered
  cases answered

theorem Tells.of_accepted {request : Request} {step : Step} {engine : Engine σ}
    (applied : p.engine.apply now request = (.ok step, engine))
    (publisher : after.publisher = p.publisher)
    (keeps : ∀ events : List Event, events ≠ [] → p.Owes events → after.Owes events)
    (brings : step.events.toList ≠ [] → after.Owes step.events.toList) :
    p.Tells now (some request) after := by
  refine .of_frame publisher keeps fun other asked _ answered => ?_
  cases asked
  rw [applied] at answered
  cases answered
  exact brings

/-- Somebody goes on with a delivery. -/
theorem Tells.of_deliver (delivery : Delivery)
    (publisher : after.publisher = (p.deliver delivery).2.publisher)
    (keeps : (p.deliver delivery).1.events = delivery.events →
      ∀ events : List Event, events ≠ [] → p.Owes events → after.Owes events) :
    p.Tells now none after := by
  rcases p.deliver_events delivery with ⟨left, same⟩ | published
  · exact .of_silent (publisher.trans same) (keeps left)
  · rw [← publisher] at published
    refine ⟨by omega, fun same => ?_, fun request asked => by cases asked⟩
    omega

theorem Calls.tells {request : Request} (called : p.Calls now request after) :
    p.Tells now (some request) after := by
  cases called with
  | rejected applied => exact .of_rejected applied rfl fun events some owed => owed
  | @accepted step engine applied =>
    have frame : (owe { p with engine } (.ofStep step)).publisher = p.publisher := by
      unfold owe
      split <;> rfl
    refine .of_accepted applied frame (fun events some owed => ?_) fun some => owe_owes _ some
    unfold owe
    split
    · exact owed
    · refine owed.imp_left ?_
      rintro ⟨delivery, member, same⟩
      exact ⟨delivery, List.mem_append_left _ member, same⟩

theorem Serves.tells {breakdown : Breakdown} {calls : List Request}
    (served : p.Serves now breakdown calls after) (free : p.dispatcher.unpublished = []) :
    p.Tells now calls.head? after := by
  have others {after : Pipeline σ ω} (deliveries : after.deliveries = p.deliveries)
      (timer : after.timer = p.timer) (events : List Event) (some : events ≠ [])
      (owed : p.Owes events) : after.Owes events := by
    unfold Owes at owed ⊢
    rw [deliveries, timer]
    rw [free] at owed
    rcases owed with caller | nothing | timer
    · exact .inl caller
    · exact absurd nothing.symm some
    · exact .inr (.inr timer)
  cases served with
  | through | brokenDown => exact .of_silent rfl (others rfl rfl)
  | rejected applied | givesUp applied => exact .of_rejected applied rfl (others rfl rfl)
  | accepted applied => exact .of_accepted applied rfl (others rfl rfl) fun _ => .inr (.inl rfl)

variable [Worker ω]

theorem Makes.tells {move : Move} (made : p.Makes now move after) :
    p.Tells now (p.requestOf move) after := by
  cases made with
  | @deliver _ delivery found =>
    obtain ⟨-, timer, deliveries, dispatcher⟩ := p.deliver_frame delivery
    refine .of_deliver delivery rfl fun left events some owed => ?_
    unfold Owes at owed ⊢
    simp only [timer, deliveries, dispatcher]
    refine owed.imp_left ?_
    rintro ⟨other, member, same⟩
    rcases mem_replaced (p.deliver delivery).1 found member with rfl | kept
    · -- Who has events to publish is not through with his delivery.
      rw [← left] at same
      refine ⟨_, ?_, same⟩
      rw [if_neg fun done => some (same.symm.trans (Delivery.events_of_isDone done))]
      exact List.mem_set (List.getElem?_eq_some_iff.mp found).1 _
    · exact ⟨other, kept, same⟩
  | handOver stands =>
    rw [requestOf, stands]
    refine .of_silent rfl fun events some owed => ?_
    simp only [Owes, stands] at owed
    exact owed
  | serve stands done served =>
    simp only [requestOf, stands, done, ↓reduceIte]
    refine served.tells ?_
    rw [stands]
    exact Delivery.events_of_isDone done
  | @dispatcherDelivers _ _ delivery stands left =>
    simp only [requestOf, stands, left, Bool.false_eq_true, ↓reduceIte]
    obtain ⟨-, timer, deliveries, -⟩ := p.deliver_frame delivery
    refine .of_deliver delivery rfl fun left events some owed => ?_
    simp only [Owes, stands, timer, deliveries, Dispatcher.unpublished, left] at owed ⊢
    exact owed
  | look stands | wake stands =>
    refine .of_silent rfl fun events some owed => ?_
    simp only [Owes, stands] at owed
    exact owed
  | timerThrough stands done =>
    refine .of_silent rfl fun events some owed => ?_
    simp only [Owes, stands, Timer.unpublished, Delivery.events_of_isDone done] at owed
    exact owed
  | @timerDelivers delivery stands =>
    obtain ⟨-, -, deliveries, dispatcher⟩ := p.deliver_frame delivery
    refine .of_deliver delivery rfl fun left events some owed => ?_
    simp only [Owes, stands, deliveries, dispatcher, Timer.unpublished, left] at owed ⊢
    exact owed
  | expire stands _ applied =>
    refine .of_accepted applied rfl (fun events some owed => ?_) fun _ => .inr (.inr rfl)
    simp only [Owes, stands, Timer.unpublished, some.symm, or_false] at owed ⊢
    exact owed.imp_right .inl
  | expireRejected stands _ applied =>
    refine .of_rejected applied rfl fun events some owed => ?_
    simp only [Owes, stands, Timer.unpublished, some.symm, or_false] at owed ⊢
    exact owed
  | report found _ called =>
    obtain ⟨count, keeps, brings⟩ := called.tells
    rw [requestOf, found]
    exact ⟨count, keeps, brings⟩

end Pipeline

/-- Acts that are open to everybody: only who builds a pipeline retires what is missing, and a store
is nobody's to meddle with. -/
def Act.isOpen {σ : Type} : Act σ → Bool
  | .advance _ | .call _ | .move _ => true
  | .retireMissing _ | .meddle _ => false

namespace Watched
variable {σ ω : Type} [OperationStore σ] {s after : Watched σ ω} {settings : LaunchSettings}
  {notes : List Note}

/-- What every state of a run has: the state in memory is filed, and whether it is active has been
told. -/
structure Steady (s : Watched σ ω) : Prop where
  filed : s.pipeline.engine.core.Filed
  noted : s.pipeline.engine.core.Noted

theorem steady_launch (store : σ) (worker : ω) (now : Instant) :
    Steady ⟨.launch settings store worker now, now, now, now⟩ := by
  have fresh := Core.filed_new settings.names settings.algorithm
  have limited := Engine.apply_answers ⟨_, store⟩ now (.setLimit settings.limit) fresh
  have suspended := Engine.apply_answers _ now (.suspend settings.suspendCount)
    (limited.filed fresh)
  have noted := Core.noted_new settings.names settings.algorithm
  exact ⟨suspended.filed (limited.filed fresh), (noted.answered limited).answered suspended⟩

variable [Worker ω]

theorem tells_of_act {act : Act σ} (acted : s.act? act = some after) :
    s.pipeline.Tells s.clock (s.request? act) after.pipeline := by
  cases ensues_of_act? acted with
  | advance | retireMissing | meddle => exact .of_silent rfl fun events some owed => owed
  | call called => exact called.tells
  | move made => exact made.tells

/-- An act that is open to everybody changes the state by its request and in no other way. -/
theorem engine_of_act (filed : s.pipeline.engine.core.Filed) {act : Act σ}
    (isOpen : act.isOpen = true) (acted : s.act? act = some after) :
    after.pipeline.engine = s.pipeline.engineAfter s.clock (s.request? act) := by
  cases ensues_of_act? acted with
  | retireMissing | meddle => cases isOpen
  | advance => rfl
  | call called => exact (called.keeps filed).1
  | move made => exact (made.timer_cases filed).1

/-- An act changes the state in memory by its request and in no other way, but for what is
retired. -/
theorem core_of_act (filed : s.pipeline.engine.core.Filed) {act : Act σ}
    (acted : s.act? act = some after) :
    (s.request? act = none ∧
      ∃ retired, after.pipeline.engine.core = { s.pipeline.engine.core with retired }) ∨
    ∃ request, s.request? act = some request ∧
      after.pipeline.engine.core = (s.pipeline.engine.apply s.clock request).2.core := by
  by_cases isOpen : act.isOpen = true
  · have engine := engine_of_act filed isOpen acted
    cases asked : s.request? act with
    | none =>
      rw [asked] at engine
      exact .inl ⟨rfl, _, congrArg Engine.core engine⟩
    | some request =>
      rw [asked] at engine
      exact .inr ⟨request, rfl, congrArg Engine.core engine⟩
  · cases act with
    | advance | call | move => exact absurd rfl isOpen
    | retireMissing batches | meddle store =>
      cases acted
      exact .inl ⟨rfl, _, rfl⟩

theorem Steady.act (steady : s.Steady) {act : Act σ} (acted : s.act? act = some after) :
    after.Steady := by
  rcases core_of_act steady.filed acted with ⟨-, retired, core⟩ | ⟨request, -, core⟩
  · constructor
    · rw [core]
      exact steady.filed.of_continues rfl rfl rfl (.refl _)
    · rw [core]
      exact steady.noted
  · have answers := s.pipeline.engine.apply_answers s.clock request steady.filed
    rw [← core] at answers
    exact ⟨answers.filed steady.filed, steady.noted.answered answers⟩

theorem Steady.leads (steady : s.Steady) (leads : s.LeadsTo notes after) : after.Steady := by
  induction leads with
  | refl => exact steady
  | clock leads now ih => exact ⟨ih.filed, ih.noted⟩
  | act leads acted ih => exact ih.act acted

/-- A pipeline is drained by a request that has something to tell. -/
theorem Steady.drains (steady : s.Steady) {act : Act σ} (acted : s.act? act = some after)
    (before : s.pipeline.isDrained = false) (drained : after.pipeline.isDrained = true) :
    ∃ request step, s.request? act = some request ∧
      (s.pipeline.engine.apply s.clock request).1 = .ok step ∧ step.events.toList ≠ [] := by
  unfold Pipeline.isDrained at before drained
  rcases core_of_act steady.filed acted with ⟨-, retired, core⟩ | ⟨request, asked, core⟩
  · rw [core] at drained
    exact absurd drained (Bool.eq_false_iff.mp before)
  · have answers := s.pipeline.engine.apply_answers s.clock request steady.filed
    rw [← core] at answers
    obtain ⟨step, answered, some⟩ := answers.tells steady.noted fun ⟨graphs, activity⟩ => by
      rw [graphs, activity, before] at drained
      cases drained
    exact ⟨request, step, asked, answered, some⟩

end Watched

/-- An act of a run with the states before and after it. -/
structure Passage (σ ω : Type) [OperationStore σ] [Worker ω] where
  before : Watched σ ω
  act : Act σ
  after : Watched σ ω
  acted : before.act? act = some after

section Waits
variable {σ ω : Type} [OperationStore σ] [Worker ω]

/-- By this act the pipeline is drained. -/
def Passage.Drains (passage : Passage σ ω) : Prop :=
  passage.before.pipeline.isDrained = false ∧ passage.after.pipeline.isDrained = true

/-- Nothing has been published since before the act, and all the events of its request are about to
be. -/
structure Passage.Unannounced (passage : Passage σ ω) (s : Watched σ ω) : Prop where
  since : s.pipeline.publisher.count = passage.before.pipeline.publisher.count
  owed : ∃ request step, passage.before.request? passage.act = some request ∧
    (passage.before.pipeline.engine.apply passage.before.clock request).1 = .ok step ∧
    step.events.toList ≠ [] ∧ s.pipeline.Owes step.events.toList

/-- A waiter waits until a pipeline is drained. It subscribes in any state that comes of a launch;
from then on it and the others act in any order. The acts of the others are given with the latest
first. -/
inductive Awaits (settings : LaunchSettings) :
    List (Passage σ ω) → Watched σ ω → Waiter → Prop where
  | subscribe {notes : List Note} {s : Watched σ ω} (store : σ) (worker : ω) (now : Instant)
      (leads : Watched.LeadsTo ⟨.launch settings store worker now, now, now, now⟩ notes s) :
      Awaits settings [] s (.new s.pipeline)
  | clock {passages : List (Passage σ ω)} {s : Watched σ ω} {waiter : Waiter}
      (awaits : Awaits settings passages s waiter) (now : Instant) :
      Awaits settings passages { s with clock := now } waiter
  | act {passages : List (Passage σ ω)} {s after : Watched σ ω} {waiter : Waiter}
      (awaits : Awaits settings passages s waiter) {act : Act σ}
      (acted : s.act? act = some after) :
      Awaits settings (⟨s, act, after, acted⟩ :: passages) after waiter
  | step {passages : List (Passage σ ω)} {s : Watched σ ω} {waiter later : Waiter}
      (awaits : Awaits settings passages s waiter)
      (stepped : waiter.step? s.pipeline = some later) : Awaits settings passages s later

variable {settings : LaunchSettings} {passages : List (Passage σ ω)} {passage : Passage σ ω}
  {s after : Watched σ ω} {waiter later : Waiter} {subscriber : Subscriber}

/-- An act that publishes nothing leaves it to be announced. -/
theorem Passage.Unannounced.act (unannounced : passage.Unannounced s)
    {act : Act σ} (acted : s.act? act = some after)
    (silent : after.pipeline.publisher.count = s.pipeline.publisher.count) :
    passage.Unannounced after := by
  obtain ⟨since, request, step, asked, answered, some, owed⟩ := unannounced
  have kept := (Watched.tells_of_act acted).keeps silent _ some owed
  exact ⟨silent.trans since, request, step, asked, answered, some, kept⟩

/-- A waiter has not been told of what is to come. If it sleeps, has been told of everything, and the
pipeline is drained, then that has happened since it looked and nobody was told. -/
structure Alert (passages : List (Passage σ ω)) (s : Watched σ ω) (waiter : Waiter) : Prop where
  steady : s.Steady
  position : ∀ subscriber, waiter = .looking subscriber ∨ waiter = .parked subscriber →
    subscriber.position ≤ s.pipeline.publisher.count
  asleep : ∀ subscriber, waiter = .parked subscriber →
    subscriber.position = s.pipeline.publisher.count → s.pipeline.isDrained = true →
      ∃ passage ∈ passages, passage.Drains ∧ passage.Unannounced s

theorem Alert.act (alert : Alert passages s waiter) {act : Act σ}
    (acted : s.act? act = some after) :
    Alert (⟨s, act, after, acted⟩ :: passages) after waiter := by
  have tells := Watched.tells_of_act acted
  refine ⟨alert.steady.act acted, fun subscriber stands => ?_, ?_⟩
  · exact Nat.le_trans (alert.position subscriber stands) tells.count
  · intro subscriber parked told drained
    have known := alert.position subscriber (.inr parked)
    have count := tells.count
    have silent : after.pipeline.publisher.count = s.pipeline.publisher.count := by omega
    by_cases already : s.pipeline.isDrained = true
    · obtain ⟨passage, member, drains, unannounced⟩ :=
        alert.asleep subscriber parked (told.trans silent) already
      exact ⟨passage, List.mem_cons_of_mem _ member, drains, unannounced.act acted silent⟩
    · have before := Bool.eq_false_iff.mpr already
      obtain ⟨request, step, asked, answered, some⟩ := alert.steady.drains acted before drained
      have owed := tells.brings request asked step answered some
      exact ⟨_, List.mem_cons_self, ⟨before, drained⟩, silent, request, step, asked, answered, some,
        owed⟩

theorem Alert.step (alert : Alert passages s waiter)
    (stepped : waiter.step? s.pipeline = some later) : Alert passages s later := by
  refine ⟨alert.steady, ?_, ?_⟩
  · intro subscriber stands
    cases waiter with
    | done => cases stepped
    | looking before =>
      have known := alert.position before (.inl rfl)
      simp only [Waiter.step?, Option.some.injEq] at stepped
      split at stepped
      · simp [← stepped] at stands
      · simp only [← stepped, reduceCtorEq, Waiter.parked.injEq, false_or] at stands
        exact stands ▸ known
    | parked before =>
      simp only [Waiter.step?, Option.map_eq_some_iff] at stepped
      obtain ⟨⟨notice, position⟩, told, rfl⟩ := stepped
      simp only [Waiter.looking.injEq, reduceCtorEq, or_false] at stands
      exact stands ▸ Publisher.tell?_position told
  · intro subscriber parked told drained
    cases waiter with
    | done => cases stepped
    | looking before =>
      simp only [Waiter.step?, drained, if_true, Option.some.injEq] at stepped
      rw [parked] at stepped
      cases stepped
    | parked before =>
      simp only [Waiter.step?, Option.map_eq_some_iff] at stepped
      obtain ⟨told, -, rfl⟩ := stepped
      cases parked

theorem Awaits.alert (awaits : Awaits settings passages s waiter) : Alert passages s waiter := by
  induction awaits with
  | @subscribe notes s store worker now leads =>
    refine ⟨(Watched.steady_launch store worker now).leads leads, ?_, nofun⟩
    intro subscriber stands
    simp only [Waiter.new, Waiter.looking.injEq, reduceCtorEq, or_false] at stands
    rw [← stands, Publisher.position_subscribe]
  | clock awaits now ih =>
    obtain ⟨⟨filed, noted⟩, position, asleep⟩ := ih
    refine ⟨⟨filed, noted⟩, position, fun subscriber parked told drained => ?_⟩
    obtain ⟨passage, member, drains, since, owed⟩ := asleep subscriber parked told drained
    exact ⟨passage, member, drains, since, owed⟩
  | act awaits acted ih => exact ih.act acted
  | step awaits stepped ih => exact ih.step stepped

/-- No wake-up is lost. Whenever the waiter sleeps and nothing waits for it to be told, and the
pipeline is drained, one of the acts since it subscribed has drained it, and all the events of that
are still about to be published; the first event of all will wake the waiter. -/
theorem wake_up_kept (awaits : Awaits settings passages s (.parked subscriber))
    (asleep : s.pipeline.publisher.tell? subscriber = none)
    (drained : s.pipeline.isDrained = true) :
    (∃ passage ∈ passages, passage.Drains ∧ passage.Unannounced s) ∧
      ∀ event : Event, ((s.pipeline.publisher.publish event).tell? subscriber).isSome := by
  have told : s.pipeline.publisher.count ≤ subscriber.position := by
    rw [← Publisher.waiting_eq_nil_iff]
    unfold Publisher.tell? at asleep
    split at asleep
    · assumption
    · cases asleep
  have known := awaits.alert.position subscriber (.inr rfl)
  have here : subscriber.position = s.pipeline.publisher.count := by omega
  refine ⟨awaits.alert.asleep subscriber rfl here drained, fun event => ?_⟩
  have some : (s.pipeline.publisher.publish event).waiting subscriber ≠ [] := by
    intro nothing
    have all := (Publisher.waiting_eq_nil_iff _ _).mp nothing
    rw [Publisher.count_publish] at all
    omega
  unfold Publisher.tell?
  split
  · contradiction
  · rfl

theorem Awaits.acts (awaits : Awaits settings passages s waiter) {acts : List (Act σ)}
    (acted : s.acts? acts = some after) : ∃ passages, Awaits settings passages after waiter := by
  induction acts generalizing s passages with
  | nil =>
    cases acted
    exact ⟨passages, awaits⟩
  | cons act rest ih =>
    obtain ⟨next, first, others⟩ := Option.bind_eq_some_iff.mp acted
    exact ih (awaits.act first) others

theorem Awaits.steps (awaits : Awaits settings passages s waiter) (count : Nat) :
    Awaits settings passages s (waiter.steps s.pipeline count) := by
  induction count generalizing waiter with
  | zero => exact awaits
  | succ count ih =>
    unfold Waiter.steps
    split
    · rename_i later stepped
      exact ih (awaits.step stepped)
    · exact awaits

end Waits

/-- An operation is started and handed over, and of its start everybody is told. -/
def startedAndTold : List (Act Memory) := [
  .call (.append 1 [.new (.ofNat 1)] []),
  .move (.deliver 0), .move (.deliver 0), .move (.deliver 0), .move (.deliver 0),
  .move .dispatch, .move .dispatch]

/-- A waiter from right after the launch has been told of the start, has looked after that and
sleeps. Then the operation is completed; before anybody is told of it the pipeline is drained. -/
theorem completed_while_asleep : ∃ passages, ∃ s : Watched Memory ScriptedWorker,
    Awaits oneAtATime passages s (.parked ⟨2⟩) ∧
      s.pipeline.publisher.tell? ⟨2⟩ = none ∧ s.pipeline.isDrained = true ∧
      ∃ passage ∈ passages, passage.Drains ∧ passage.Unannounced s := by
  let launched : Watched Memory ScriptedWorker :=
    ⟨.launch oneAtATime .empty ⟨.nothing, ∅⟩ .first, .first, .first, .first⟩
  have computed : (launched.acts? startedAndTold).any (fun told =>
      (Waiter.new launched.pipeline).steps told.pipeline 5 = .parked ⟨2⟩ ∧
      (told.acts? [.call (.complete (.ofNat 1))]).any (fun s =>
        (s.pipeline.publisher.tell? ⟨2⟩).isNone ∧ s.pipeline.isDrained = true)) = true := by
    decide +kernel
  obtain ⟨told, first, facts⟩ := (Option.any_eq_true _ _).mp computed
  obtain ⟨sleeps, facts⟩ := of_decide_eq_true facts
  obtain ⟨s, second, facts⟩ := (Option.any_eq_true _ _).mp facts
  obtain ⟨nothing, drained⟩ := of_decide_eq_true facts
  obtain ⟨earlier, awaits⟩ := (Awaits.subscribe Memory.empty _ .first .refl).acts first
  have parked := awaits.steps 5
  rw [sleeps] at parked
  obtain ⟨passages, awaits⟩ := parked.acts second
  have asleep := Option.isNone_iff_eq_none.mp nothing
  exact ⟨passages, s, awaits, asleep, drained, (wake_up_kept awaits asleep drained).1⟩

end CommitPipeline
