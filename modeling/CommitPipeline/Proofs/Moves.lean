import CommitPipeline.Proofs.MoveSteps
import CommitPipeline.Proofs.NextHold

/-! What a call or a move does to a sleeping timer. Either it moves no hold, or somebody owes the
timer a wake-up until the timer has taken it up. -/
namespace CommitPipeline

/-- Whether the dispatcher is about to wake the timer. -/
def Dispatcher.owesWake : Dispatcher → Bool
  | .serving _ _ delivery => delivery.wake
  | .idle | .ended => false

/-- What the timer sleeps on, if it sleeps. -/
def Timer.sleep? : Timer → Option (Option Instant)
  | .parked deadline => some deadline
  | .reading | .delivering _ => none

theorem Timer.sleep?_eq_some {timer : Timer} {deadline : Option Instant} :
    timer.sleep? = some deadline ↔ timer = .parked deadline := by
  cases timer <;> simp [sleep?]

namespace Pipeline
variable {σ ω : Type} {p after : Pipeline σ ω} {now : Instant} {request : Request}
  {delivery : Delivery}

/-- No wake-up waits for the timer, and nobody is about to send one. -/
structure Quiet (p : Pipeline σ ω) : Prop where
  taken : p.wakes = 0
  callers : ∀ delivery ∈ p.deliveries, delivery.wake = false
  dispatcher : p.dispatcher.owesWake = false

/-- The timer sleeps on as before, and on the right holds if it did: what the act brings is either
told to it or does not move the next hold. -/
def Keeps (p after : Pipeline σ ω) : Prop :=
  after.timer = p.timer ∧
    (after.Quiet → p.Quiet ∧ ∀ t, after.engine.core.nextHold t = p.engine.core.nextHold t)

/-- A wake-up that is owed stays owed until it is sent. -/
theorem deliver_quiet (taken : (p.deliver delivery).2.wakes = 0)
    (left : (p.deliver delivery).1.wake = false) : p.wakes = 0 ∧ delivery.wake = false := by
  obtain ⟨operations, wake, events⟩ := delivery
  cases operations with
  | cons op rest =>
    refine ⟨?_, left⟩
    simp only [deliver, send] at taken
    split at taken <;> exact taken
  | nil =>
    cases wake with
    | true => cases taken
    | false => cases events <;> exact ⟨taken, rfl⟩

theorem wake_of_isDone (done : delivery.isDone = true) : delivery.wake = false := by
  simp only [Delivery.isDone, Bool.and_eq_true, Bool.not_eq_true'] at done
  exact done.1.2

theorem mem_replaced {deliveries : List Delivery} {place : Nat} {other : Delivery} (rest : Delivery)
    (found : deliveries[place]? = some delivery) (member : other ∈ deliveries) :
    other = delivery ∨ other ∈
      if rest.isDone then deliveries.eraseIdx place else deliveries.set place rest := by
  obtain ⟨index, at_index⟩ := List.mem_iff_getElem?.mp member
  by_cases same : index = place
  · rw [same, found] at at_index
    exact .inl (Option.some.inj at_index).symm
  · right
    split
    · exact List.mem_eraseIdx_iff_getElem?.mpr ⟨index, same, at_index⟩
    · refine List.mem_of_getElem? (i := index) ?_
      rw [List.getElem?_set_ne (Ne.symm same), at_index]

private theorem rest_quiet {deliveries : List Delivery} {place : Nat} {rest : Delivery}
    (found : deliveries[place]? = some delivery)
    (quiet : ∀ other ∈ if rest.isDone then deliveries.eraseIdx place else deliveries.set place rest,
      other.wake = false) : rest.wake = false := by
  by_cases done : rest.isDone = true
  · exact wake_of_isDone done
  · refine quiet rest ?_
    rw [if_neg done]
    obtain ⟨bound, -⟩ := List.getElem?_eq_some_iff.mp found
    exact List.mem_set bound rest

theorem owe_frame (p : Pipeline σ ω) (delivery : Delivery) :
    (p.owe delivery).engine = p.engine ∧ (p.owe delivery).timer = p.timer := by
  unfold owe
  split <;> exact ⟨rfl, rfl⟩

theorem quiet_of_owe (quiet : (p.owe delivery).Quiet) : p.Quiet ∧ delivery.wake = false := by
  unfold owe at quiet
  split at quiet
  · rename_i done
    exact ⟨quiet, wake_of_isDone done⟩
  · obtain ⟨taken, callers, dispatcher⟩ := quiet
    have earlier (other : Delivery) (member : other ∈ p.deliveries) : other.wake = false :=
      callers other (List.mem_append_left _ member)
    exact ⟨⟨taken, earlier, dispatcher⟩,
      callers delivery (List.mem_append_right _ List.mem_cons_self)⟩

/-! ### One act -/

/-- Whether the timer makes a move to look for the next hold. -/
def looks (p : Pipeline σ ω) (move : Move) : Bool :=
  match move, p.timer with
  | .attend, .reading => true
  | _, _ => false

/-- The request that a move makes, of the worker, the timer or a report. -/
def requestOf (p : Pipeline σ ω) : Move → Option Request
  | .dispatch =>
    match p.dispatcher with
    | .serving _ calls delivery => if delivery.isDone then calls.head? else none
    | .idle | .ended => none
  | .expire => some .dispatch
  | .report index => p.reports[index]?.map (·.request)
  | .deliver _ | .attend => none

/-- Whether nobody is at work and nothing is on its way. -/
def isStill (p : Pipeline σ ω) : Bool :=
  p.deliveries.isEmpty && p.outbox.isEmpty && p.reports.isEmpty && p.wakes = 0 &&
    match p.dispatcher with
    | .serving _ _ _ => false
    | .idle | .ended => true

theorem quiet_of_isStill (still : p.isStill = true) : p.Quiet := by
  simp only [isStill, Bool.and_eq_true, List.isEmpty_iff, decide_eq_true_eq] at still
  obtain ⟨⟨⟨⟨deliveries, -⟩, -⟩, wakes⟩, free⟩ := still
  refine ⟨wakes, by simp [deliveries], ?_⟩
  cases stands : p.dispatcher with
  | idle | ended => rfl
  | serving => simp [stands] at free

section Act
variable [OperationStore σ]

/-- The engine once a request has been made, if there is one. -/
def engineAfter (p : Pipeline σ ω) (now : Instant) : Option Request → Engine σ
  | some request => (p.engine.apply now request).2
  | none => p.engine

/-- A call either moves no hold or owes the timer a wake-up. -/
theorem Calls.keeps (called : p.Calls now request after) (filed : p.engine.core.Filed) :
    after.engine = p.engineAfter now (some request) ∧ p.Keeps after := by
  have answers := Engine.apply_answers p.engine now request filed
  rw [engineAfter]
  cases called with
  | rejected applied =>
    rw [applied] at answers ⊢
    have same := answers.nextHold_eq nofun
    exact ⟨rfl, rfl, fun ⟨taken, callers, dispatcher⟩ => ⟨⟨taken, callers, dispatcher⟩, same⟩⟩
  | @accepted step engine applied =>
    rw [applied] at answers ⊢
    obtain ⟨sameEngine, sameTimer⟩ := owe_frame { p with engine } (.ofStep step)
    refine ⟨sameEngine, sameTimer, fun quiet => ?_⟩
    obtain ⟨⟨taken, callers, dispatcher⟩, silent⟩ := quiet_of_owe quiet
    have noEvents : step.events.isEmpty = true := by simpa [Delivery.ofStep] using silent
    refine ⟨⟨taken, callers, dispatcher⟩, fun t => ?_⟩
    rw [sameEngine]
    exact answers.nextHold_eq (fun other same => Except.ok.inj same ▸ noEvents) t

/-- So does the dispatcher when the worker makes a call. -/
theorem Serves.keeps {breakdown : Breakdown} {calls : List Request}
    (served : p.Serves now breakdown calls after) (filed : p.engine.core.Filed)
    (idle : p.dispatcher.owesWake = false) :
    after.engine = p.engineAfter now calls.head? ∧ p.Keeps after := by
  cases served with
  | through | brokenDown =>
    exact ⟨rfl, rfl, fun ⟨taken, callers, _⟩ => ⟨⟨taken, callers, idle⟩, fun _ => rfl⟩⟩
  | @rejected request _ _ _ applied | @givesUp request _ _ _ applied =>
    have answers := Engine.apply_answers p.engine now request filed
    rw [List.head?_cons, engineAfter, applied]
    rw [applied] at answers
    have same := answers.nextHold_eq nofun
    exact ⟨rfl, rfl, fun ⟨taken, callers, _⟩ => ⟨⟨taken, callers, idle⟩, same⟩⟩
  | @accepted request _ step _ applied =>
    have answers := Engine.apply_answers p.engine now request filed
    rw [List.head?_cons, engineAfter, applied]
    rw [applied] at answers
    refine ⟨rfl, rfl, fun ⟨taken, callers, silent⟩ => ⟨⟨taken, callers, idle⟩, ?_⟩⟩
    have noEvents : step.events.isEmpty = true := by
      simpa [Delivery.ofStep, Dispatcher.owesWake] using silent
    exact answers.nextHold_eq fun other same => Except.ok.inj same ▸ noEvents

variable [Worker ω]

/-- A move changes the state by its request and in no other way, and after it the timer sleeps on as
before, or has just looked, or is awake. -/
theorem Makes.timer_cases {move : Move} (made : p.Makes now move after)
    (filed : p.engine.core.Filed) :
    after.engine = p.engineAfter now (p.requestOf move) ∧
      ((p.looks move = false ∧ p.Keeps after) ∨
        (p.looks move = true ∧
          after = { p with timer := .parked (p.engine.core.nextHold now) }) ∨
        after.timer.sleep? = none) := by
  cases made with
  | @deliver _ delivery found =>
    obtain ⟨engine, timer, deliveries, dispatcher⟩ := p.deliver_frame delivery
    refine ⟨engine, .inl ⟨rfl, timer, fun ⟨taken, callers, silent⟩ => ?_⟩⟩
    rw [deliveries] at callers
    obtain ⟨noWake, delivered⟩ := deliver_quiet taken (rest_quiet found callers)
    refine ⟨⟨noWake, fun other member => ?_, dispatcher ▸ silent⟩, fun t => by rw [engine]⟩
    rcases mem_replaced _ found member with rfl | kept
    · exact delivered
    · exact callers other kept
  | handOver stands =>
    have free : p.dispatcher.owesWake = false := by rw [stands]; rfl
    rw [requestOf, stands]
    exact ⟨rfl, .inl ⟨rfl, rfl, fun ⟨taken, callers, _⟩ => ⟨⟨taken, callers, free⟩, fun _ => rfl⟩⟩⟩
  | serve stands done served =>
    have free : p.dispatcher.owesWake = false := by
      rw [stands]
      exact wake_of_isDone done
    simp only [requestOf, stands, done, ↓reduceIte]
    exact (served.keeps filed free).imp_right fun keeps => .inl ⟨rfl, keeps⟩
  | @dispatcherDelivers _ _ delivery stands left =>
    obtain ⟨engine, timer, deliveries, -⟩ := p.deliver_frame delivery
    simp only [requestOf, stands, left, Bool.false_eq_true, ↓reduceIte]
    refine ⟨engine, .inl ⟨rfl, timer, fun ⟨taken, callers, silent⟩ => ?_⟩⟩
    obtain ⟨noWake, delivered⟩ := deliver_quiet taken silent
    refine ⟨⟨noWake, fun other member => callers other (deliveries.symm ▸ member), ?_⟩,
      fun t => by rw [engine]⟩
    rw [stands]
    exact delivered
  | look stands => exact ⟨rfl, .inr (.inl ⟨by simp [looks, stands], rfl⟩)⟩
  | wake | timerThrough => exact ⟨rfl, .inr (.inr rfl)⟩
  | @timerDelivers delivery => exact ⟨(p.deliver_frame delivery).1, .inr (.inr rfl)⟩
  | expire _ _ applied | expireRejected _ _ applied =>
    rw [requestOf, engineAfter, applied]
    exact ⟨rfl, .inr (.inr rfl)⟩
  | report found _ called =>
    obtain ⟨engine, timer, kept⟩ := called.keeps filed
    rw [requestOf, found]
    refine ⟨engine, .inl ⟨rfl, timer, fun quiet => ?_⟩⟩
    obtain ⟨⟨taken, callers, dispatcher⟩, same⟩ := kept quiet
    exact ⟨⟨taken, callers, dispatcher⟩, same⟩

/-- The timer wakes by itself from its deadline on. -/
theorem expire_isSome {deadline : Option Instant} (parked : p.timer = .parked deadline) :
    (p.move? now .expire).isSome = true ↔
      ∃ earliest, deadline = some earliest ∧ earliest ≤ now := by
  cases deadline with
  | none => simp [move?, parked]
  | some earliest =>
    simp only [move?, parked, Option.some.injEq, exists_eq_left']
    by_cases early : now < earliest
    · simp [early, Instant.not_le.mpr early]
    · rw [if_neg early]
      cases p.change now .dispatch with
      | mk answer after => cases answer <;> simp [Instant.not_lt.mp early]

/-- Where nobody is at work and the timer sleeps for good, nothing moves any more. -/
theorem move?_of_isStill (still : p.isStill = true) (asleep : p.timer = .parked none)
    (move : Move) : p.move? now move = none := by
  simp only [isStill, Bool.and_eq_true, List.isEmpty_iff, decide_eq_true_eq] at still
  obtain ⟨⟨⟨⟨deliveries, outbox⟩, reports⟩, wakes⟩, free⟩ := still
  cases move with
  | deliver caller => simp [move?, deliveries]
  | dispatch =>
    cases stands : p.dispatcher with
    | idle | ended => simp [move?, stands, outbox]
    | serving => simp [stands] at free
  | attend => simp [move?, asleep, wakes]
  | expire => simp [move?, asleep]
  | report index => simp [move?, reports]

end Act

end Pipeline
end CommitPipeline
