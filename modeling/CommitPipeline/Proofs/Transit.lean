import Mathlib.Algebra.Order.Group.Multiset
import Mathlib.Data.Multiset.Bind
import Mathlib.Tactic.Abel
import CommitPipeline.Proofs.Moves
import CommitPipeline.Proofs.History

/-! What is on its way to the worker. Whoever makes a request that starts operations owes them to
the dispatcher and sends them one at a time; the dispatcher hands them over one at a time. No act
loses one of them or sends it twice. -/
namespace CommitPipeline

/-- What is noted of a pipeline at work: the requests with their answers, and the operations that
the worker is handed. -/
inductive Note where
  | answered (entry : Entry)
  | handedOver (op : Operation)

namespace Note

/-- The request that a note tells of, if it was not rejected. -/
def accepted? : Note → Option Request
  | .answered entry => entry.accepted?
  | .handedOver _ => none

def dispatched : Note → List Operation
  | .answered entry => entry.dispatched
  | .handedOver _ => []

def handed : Note → List Operation
  | .answered _ => []
  | .handedOver op => [op]

end Note

/-- What has been started, as often as it was. -/
def dispatchedIn (notes : List Note) : Multiset Operation := notes.flatMap (·.dispatched)

/-- What the worker has been handed, as often as it was. -/
def handedOverIn (notes : List Note) : Multiset Operation := notes.flatMap (·.handed)

theorem dispatchedIn_cons (note : Note) (notes : List Note) :
    dispatchedIn (note :: notes) = note.dispatched + dispatchedIn notes := by
  simp [dispatchedIn]

theorem handedOverIn_cons (note : Note) (notes : List Note) :
    handedOverIn (note :: notes) = note.handed + handedOverIn notes := by
  simp [handedOverIn]

@[simp] theorem dispatchedIn_nil : dispatchedIn [] = 0 := rfl

@[simp] theorem handedOverIn_nil : handedOverIn [] = 0 := rfl

@[simp] theorem dispatchedIn_singleton (note : Note) : dispatchedIn [note] = note.dispatched := by
  simp [dispatchedIn]

@[simp] theorem handedOverIn_singleton (note : Note) : handedOverIn [note] = note.handed := by
  simp [handedOverIn]

/-- What the worker is handed, in order; the notes are given with the latest first. -/
def handOvers (notes : List Note) : List Operation := notes.reverse.flatMap (·.handed)

theorem handOvers_append (later earlier : List Note) :
    handOvers (later ++ earlier) = handOvers earlier ++ handOvers later := by
  rw [handOvers, List.reverse_append, List.flatMap_append]
  rfl

theorem handOvers_silent {notes : List Note} (silent : ∀ note ∈ notes, note.handed = []) :
    handOvers notes = [] :=
  List.flatMap_eq_nil_iff.mpr fun note member => silent note (List.mem_reverse.mp member)

theorem coe_handOvers (notes : List Note) : (handOvers notes : Multiset Operation) =
    handedOverIn notes :=
  Multiset.coe_eq_coe.mpr ((List.reverse_perm notes).flatMap_right _)

/-- What the dispatcher is about to send to itself for the worker. -/
def Dispatcher.owed : Dispatcher → List Operation
  | .serving _ _ delivery => delivery.operations
  | .idle | .ended => []

/-- What the timer is about to send. -/
def Timer.owed : Timer → List Operation
  | .delivering delivery => delivery.operations
  | .reading | .parked _ => []

theorem Delivery.operations_of_isDone {delivery : Delivery} (done : delivery.isDone = true) :
    delivery.operations = [] := by
  simp only [isDone, Bool.and_eq_true, List.isEmpty_iff] at done
  exact done.1.1

/-- What somebody is about to send, in its order, if there is anything. -/
def owing (operations : List Operation) : Multiset (List Operation) :=
  if operations.isEmpty then 0 else {operations}

@[simp] theorem owing_nil : owing [] = 0 := rfl

@[simp] theorem owing_cons (op : Operation) (rest : List Operation) :
    owing (op :: rest) = {op :: rest} := rfl

theorem mem_owing {operations other : List Operation} :
    other ∈ owing operations ↔ operations ≠ [] ∧ other = operations := by
  cases operations <;> simp

theorem owing_of_isDone {delivery : Delivery} (done : delivery.isDone = true) :
    owing delivery.operations = 0 := by
  rw [Delivery.operations_of_isDone done, owing_nil]

theorem owing_bind (operations : List Operation) :
    ((owing operations).bind fun sent => (sent : Multiset Operation)) = operations := by
  cases operations <;> simp

namespace Pipeline
variable {σ ω : Type} {p after : Pipeline σ ω} {now : Instant} {delivery : Delivery}
  {noted : List Note}

/-- The operations that were started and that the worker has not been handed: callers, the worker's
calls and the timer are about to send them, or they have been sent. -/
def inTransit (p : Pipeline σ ω) : Multiset Operation :=
  p.deliveries.flatMap (·.operations) + p.dispatcher.owed + p.timer.owed + p.outbox

/-- What callers, the worker's calls and the timer are about to send, each in its order. -/
def unsent (p : Pipeline σ ω) : Multiset (List Operation) :=
  (p.deliveries.map (owing ·.operations)).sum + (owing p.dispatcher.owed + owing p.timer.owed)

theorem inTransit_eq (p : Pipeline σ ω) :
    p.inTransit = (p.unsent.bind fun sent => (sent : Multiset Operation)) + p.outbox := by
  have callers (deliveries : List Delivery) :
      ((deliveries.map (owing ·.operations)).sum.bind fun sent => (sent : Multiset Operation)) =
        deliveries.flatMap (·.operations) := by
    induction deliveries with
    | nil => rfl
    | cons delivery rest ih =>
      rw [List.map_cons, List.sum_cons, Multiset.add_bind, ih, owing_bind, List.flatMap_cons,
        Multiset.coe_add]
  rw [inTransit, unsent, Multiset.add_bind, Multiset.add_bind, callers, owing_bind, owing_bind,
    ← add_assoc]

theorem send_outbox (alive : p.dispatcher ≠ .ended) (op : Operation) :
    (p.send op).outbox = p.outbox ++ [op] := by
  rw [send]
  split
  · rename_i ended
    exact absurd ended alive
  · rfl

/-- A caller who goes on changes what all of them owe by what this one owes. -/
theorem replaced_sum {M : Type} [AddCommMonoid M] (f : Delivery → M)
    (none : ∀ delivery : Delivery, delivery.isDone = true → f delivery = 0)
    {deliveries : List Delivery} {place : Nat} (found : deliveries[place]? = some delivery)
    (rest : Delivery) : ∃ others, (deliveries.map f).sum = f delivery + others ∧
      ((if rest.isDone then deliveries.eraseIdx place else deliveries.set place rest).map f).sum =
        f rest + others := by
  obtain ⟨bound, here⟩ := List.getElem?_eq_some_iff.mp found
  have split := List.take_append_drop place deliveries
  rw [List.drop_eq_getElem_cons bound, here] at split
  refine ⟨((deliveries.take place).map f).sum + ((deliveries.drop (place + 1)).map f).sum, ?_, ?_⟩
  · nth_rewrite 1 [← split]
    rw [List.map_append, List.map_cons, List.sum_append, List.sum_cons]
    exact add_left_comm ..
  · split
    · rename_i done
      rw [List.eraseIdx_eq_take_drop_succ, List.map_append, List.sum_append, none rest done,
        zero_add]
    · rw [List.set_eq_take_append_cons_drop, if_pos bound, List.map_append, List.map_cons,
        List.sum_append, List.sum_cons]
      exact add_left_comm ..

/-- What an act does to operations on their way: a request starts some, somebody sends the first that
he owes, the dispatcher hands over the first that was sent, or nobody does anything. Once the
dispatcher has broken down nothing is handed over. -/
inductive Transfers (p after : Pipeline σ ω) : List Note → Prop where
  | broken {notes : List Note} (ended : after.dispatcher = .ended)
      (silent : ∀ note ∈ notes, note.handed = []) : Transfers p after notes
  | keeps (alive : p.dispatcher ≠ .ended) (unsent : after.unsent = p.unsent)
      (outbox : after.outbox = p.outbox) : Transfers p after []
  | starts (entry : Entry) (alive : p.dispatcher ≠ .ended)
      (unsent : after.unsent = p.unsent + owing entry.dispatched)
      (outbox : after.outbox = p.outbox) : Transfers p after [.answered entry]
  | sends (op : Operation) (rest : List Operation) (others : Multiset (List Operation))
      (alive : p.dispatcher ≠ .ended) (unsent : p.unsent = {op :: rest} + others)
      (left : after.unsent = owing rest + others) (outbox : after.outbox = p.outbox ++ [op]) :
      Transfers p after []
  | handsOver (op : Operation) (alive : p.dispatcher ≠ .ended) (unsent : after.unsent = p.unsent)
      (outbox : p.outbox = op :: after.outbox) : Transfers p after [.handedOver op]

theorem Transfers.of_deliver (alive : p.dispatcher ≠ .ended) (delivery : Delivery)
    (others : Multiset (List Operation)) (outbox : after.outbox = (p.deliver delivery).2.outbox)
    (unsent : p.unsent = owing delivery.operations + others)
    (left : after.unsent = owing (p.deliver delivery).1.operations + others) :
    p.Transfers after [] := by
  obtain ⟨operations, wake, events⟩ := delivery
  cases operations with
  | cons op rest =>
    exact .sends op rest others alive unsent left (outbox.trans (send_outbox alive op))
  | nil =>
    have same : owing (p.deliver ⟨[], wake, events⟩).1.operations = owing [] ∧
        (p.deliver ⟨[], wake, events⟩).2.outbox = p.outbox := by
      cases wake <;> cases events <;> exact ⟨rfl, rfl⟩
    rw [same.1] at left
    exact .keeps alive (left.trans unsent.symm) (outbox.trans same.2)

theorem owe_unsent (p : Pipeline σ ω) (delivery : Delivery) :
    (p.owe delivery).unsent = p.unsent + owing delivery.operations := by
  unfold owe
  split
  · rename_i done
    rw [owing_of_isDone done, add_zero]
  · simp only [unsent, List.map_append, List.sum_append, List.map_singleton, List.sum_singleton]
    exact add_right_comm ..

theorem owe_outbox (p : Pipeline σ ω) (delivery : Delivery) :
    (p.owe delivery).outbox = p.outbox := by
  unfold owe
  split <;> rfl

theorem Transfers.alive (transfers : p.Transfers after noted) (alive : after.dispatcher ≠ .ended) :
    p.dispatcher ≠ .ended := by
  cases transfers with
  | broken ended => exact absurd ended alive
  | keeps before | starts _ before | sends _ _ _ before | handsOver _ before => exact before

/-- As long as the dispatcher has not broken down no act loses an operation or sends it twice: what
was on its way and what is started is on its way, or the worker is handed it. -/
theorem Transfers.transit (transfers : p.Transfers after noted)
    (alive : after.dispatcher ≠ .ended) :
    after.inTransit + handedOverIn noted = p.inTransit + dispatchedIn noted := by
  have first (op : Operation) (rest : List Operation) :
      ((op :: rest : List Operation) : Multiset Operation) = {op} + (rest : Multiset Operation) :=
    (Multiset.singleton_add op (rest : Multiset Operation)).symm
  rw [inTransit_eq, inTransit_eq]
  cases transfers with
  | broken ended => exact absurd ended alive
  | keeps _ unsent outbox => rw [unsent, outbox, handedOverIn_nil, dispatchedIn_nil]
  | starts entry _ unsent outbox =>
    rw [unsent, outbox, Multiset.add_bind, owing_bind, handedOverIn_singleton,
      dispatchedIn_singleton]
    exact (add_zero _).trans (add_right_comm ..)
  | sends op rest others _ unsent left outbox =>
    rw [unsent, left, outbox, Multiset.add_bind, Multiset.add_bind, owing_bind,
      Multiset.singleton_bind, ← Multiset.coe_add, Multiset.coe_singleton, first op rest,
      handedOverIn_nil, dispatchedIn_nil]
    abel
  | handsOver op _ unsent outbox =>
    rw [unsent, outbox, handedOverIn_singleton, dispatchedIn_singleton, first op after.outbox]
    change _ + ({op} : Multiset Operation) = _ + 0
    abel

theorem deliver_worker (p : Pipeline σ ω) (delivery : Delivery) :
    (p.deliver delivery).2.worker = p.worker := by
  obtain ⟨operations, wake, events⟩ := delivery
  cases operations with
  | nil => cases wake <;> cases events <;> rfl
  | cons op rest =>
    simp only [deliver, send]
    split <;> rfl

/-- The operation that the worker is handed by a move. -/
def handsOver? (p : Pipeline σ ω) (move : Move) : Option Operation :=
  match move, p.dispatcher with
  | .dispatch, .idle => p.outbox.head?
  | _, _ => none

theorem requestOf_of_handsOver {op : Operation} {move : Move}
    (hands : p.handsOver? move = some op) : p.requestOf move = none := by
  unfold handsOver? at hands
  split at hands
  · rename_i stands
    rw [requestOf, stands]
  · cases hands

variable [OperationStore σ]

/-- The note of a request that is made now. -/
def entryFor (p : Pipeline σ ω) (now : Instant) (request : Request) : Entry :=
  ⟨p.engine.core, .request now request, (p.engine.apply now request).1⟩

/-- What there is to note of a move. -/
def notes (p : Pipeline σ ω) (now : Instant) (move : Move) : List Note :=
  match p.handsOver? move with
  | some op => [.handedOver op]
  | none => (p.requestOf move).toList.map fun request => .answered (p.entryFor now request)

/-- A move makes a request, or hands an operation over, or does neither. -/
theorem notes_cases (p : Pipeline σ ω) (now : Instant) (move : Move) :
    (p.requestOf move = none ∧ p.notes now move = []) ∨
      (∃ request, p.requestOf move = some request ∧
        p.notes now move = [.answered (p.entryFor now request)]) ∨
      ∃ op, p.requestOf move = none ∧ p.notes now move = [.handedOver op] := by
  cases hands : p.handsOver? move with
  | some op => exact .inr (.inr ⟨op, requestOf_of_handsOver hands, by rw [notes, hands]⟩)
  | none =>
    rw [notes, hands]
    cases p.requestOf move with
    | none => exact .inl ⟨rfl, rfl⟩
    | some request => exact .inr (.inl ⟨request, rfl, rfl⟩)

theorem Calls.transfers {request : Request} (called : p.Calls now request after)
    (alive : p.dispatcher ≠ .ended) :
    p.Transfers after [.answered (p.entryFor now request)] := by
  rw [entryFor]
  cases called with
  | accepted applied =>
    rw [applied]
    exact .starts _ alive (owe_unsent ..) (owe_outbox ..)
  | rejected applied =>
    rw [applied]
    exact .starts _ alive (add_zero _).symm rfl

/-- The dispatcher makes the next call of the worker, or is through with it. -/
theorem Serves.transfers {breakdown : Breakdown} {calls : List Request}
    (served : p.Serves now breakdown calls after) (alive : p.dispatcher ≠ .ended)
    (free : p.dispatcher.owed = []) (stillAlive : after.dispatcher ≠ .ended) :
    p.Transfers after
      (calls.head?.toList.map fun request => .answered (p.entryFor now request)) := by
  have unsent {after : Pipeline σ ω} (deliveries : after.deliveries = p.deliveries)
      (timer : after.timer = p.timer) : after.unsent = p.unsent + owing after.dispatcher.owed := by
    simp only [Pipeline.unsent, deliveries, timer, free, owing_nil, zero_add]
    rw [add_right_comm, add_assoc]
  cases served with
  | through => exact .keeps alive (Eq.trans (unsent rfl rfl) (add_zero _)) rfl
  | brokenDown | givesUp => exact absurd rfl stillAlive
  | accepted applied | rejected applied =>
    rw [List.head?_cons, Option.toList_some, List.map_singleton, entryFor, applied]
    exact .starts _ alive (unsent rfl rfl) rfl

theorem Calls.worker {request : Request} (called : p.Calls now request after) :
    after.worker = p.worker := by
  cases called with
  | rejected => rfl
  | accepted =>
    unfold owe
    split <;> rfl

theorem Serves.worker {breakdown : Breakdown} {calls : List Request}
    (served : p.Serves now breakdown calls after) : after.worker = p.worker := by
  cases served <;> rfl

variable [Worker ω]

/-- What one move does, as long as the dispatcher has not broken down. -/
theorem Makes.transfers {move : Move} (made : p.Makes now move after)
    (alive : p.dispatcher ≠ .ended) (stillAlive : after.dispatcher ≠ .ended) :
    p.Transfers after (p.notes now move) := by
  cases made with
  | @deliver _ delivery found =>
    obtain ⟨-, timer, deliveries, dispatcher⟩ := p.deliver_frame delivery
    obtain ⟨others, before, left⟩ := replaced_sum (owing ·.operations)
      (fun _ => owing_of_isDone) found (p.deliver delivery).1
    refine .of_deliver alive delivery (others + (owing p.dispatcher.owed + owing p.timer.owed))
      rfl ?_ ?_
    · rw [unsent, before, add_assoc]
    · simp only [unsent, timer, dispatcher, deliveries, left]
      exact add_assoc ..
  | @handOver op _ stands queue =>
    have noted : p.notes now .dispatch = [.handedOver op] := by
      simp [notes, handsOver?, stands, queue]
    rw [noted]
    refine .handsOver op alive ?_ queue
    simp only [unsent, stands]
    rfl
  | @serve _ _ calls _ stands done served =>
    have noted : p.notes now .dispatch = calls.head?.toList.map
        fun request => .answered (p.entryFor now request) := by
      simp [notes, handsOver?, requestOf, stands, done]
    rw [noted]
    refine served.transfers alive ?_ stillAlive
    rw [stands]
    exact Delivery.operations_of_isDone done
  | @dispatcherDelivers _ _ delivery stands left =>
    have noted : p.notes now .dispatch = [] := by
      simp [notes, handsOver?, requestOf, stands, left]
    obtain ⟨-, timer, deliveries, -⟩ := p.deliver_frame delivery
    rw [noted]
    refine .of_deliver alive delivery
      ((p.deliveries.map (owing ·.operations)).sum + owing p.timer.owed) rfl ?_ ?_
    · rw [unsent, stands]
      exact add_left_comm ..
    · simp only [unsent, deliveries, timer, Dispatcher.owed]
      exact add_left_comm ..
  | look stands | wake stands =>
    exact .keeps alive (by simp only [unsent, stands]; rfl) rfl
  | timerThrough stands done =>
    refine .keeps alive ?_ rfl
    simp only [unsent, stands, Timer.owed, owing_of_isDone done, owing_nil]
  | @timerDelivers delivery stands =>
    obtain ⟨-, -, deliveries, dispatcher⟩ := p.deliver_frame delivery
    refine .of_deliver alive delivery
      ((p.deliveries.map (owing ·.operations)).sum + owing p.dispatcher.owed) rfl ?_ ?_
    · rw [unsent, stands, ← add_assoc]
      exact add_comm ..
    · simp only [unsent, deliveries, dispatcher, Timer.owed]
      rw [← add_assoc]
      exact add_comm ..
  | expire stands _ applied =>
    change p.Transfers _ [.answered (p.entryFor now .dispatch)]
    rw [entryFor, applied]
    refine .starts _ alive ?_ rfl
    simp only [unsent, stands, Timer.owed, owing_nil, add_zero, Entry.dispatched, ← add_assoc]
    rfl
  | expireRejected stands _ applied =>
    change p.Transfers _ [.answered (p.entryFor now .dispatch)]
    rw [entryFor, applied]
    refine .starts _ alive ?_ rfl
    simp only [unsent, stands]
    exact (add_zero _).symm
  | @report _ index report found _ called =>
    have noted : p.notes now (.report index) = [.answered (p.entryFor now report.request)] := by
      simp [notes, handsOver?, requestOf, found]
    rw [noted]
    cases called.transfers alive with
    | broken ended => exact absurd ended stillAlive
    | starts entry _ unsent outbox => exact .starts _ alive unsent outbox

/-- The worker is started on what a move hands over, and on nothing else. -/
theorem Makes.worker {move : Move} (made : p.Makes now move after) :
    after.worker = match p.handsOver? move with
      | some op => (Worker.start p.worker p.engine.core op).2
      | none => p.worker := by
  cases made with
  | deliver => exact deliver_worker p _
  | handOver stands queue =>
    simp only [handsOver?, stands, queue, List.head?_cons]
    rfl
  | serve stands _ served =>
    simp only [handsOver?, stands]
    exact served.worker
  | dispatcherDelivers stands =>
    simp only [handsOver?, stands]
    exact deliver_worker p _
  | look | wake | timerThrough | expire | expireRejected => rfl
  | timerDelivers => exact deliver_worker p _
  | report _ _ called => exact called.worker

end Pipeline
end CommitPipeline
