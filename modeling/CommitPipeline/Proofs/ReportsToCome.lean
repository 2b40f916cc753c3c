import CommitPipeline.Proofs.SendingOrder
import CommitPipeline.Worker.Simulated

/-! What the simulated worker has to do with a running pipeline. It leaves no calls to the
dispatcher, so that goes on for good. For each operation that it is handed it has one report to
make, and all else that may come is a request of others that reports on nothing. -/
namespace CommitPipeline

/-- The dispatcher waits for operations, or delivers; the worker has left no calls to it. -/
def Dispatcher.isFree : Dispatcher → Bool
  | .idle => true
  | .serving breakdown calls _ => breakdown = .never && calls.isEmpty
  | .ended => false

theorem Dispatcher.alive_of_isFree {d : Dispatcher} (free : d.isFree = true) : d ≠ .ended := by
  rintro rfl
  cases free

theorem Report.insert_perm (report : Report) (reports : List Report) :
    (report.insert reports).Perm (report :: reports) := by
  induction reports with
  | nil => exact .refl _
  | cons other rest ih =>
    rw [Report.insert]
    split
    · exact .refl _
    · exact (ih.cons other).trans (.swap report other rest)

namespace Pipeline
variable {σ ω : Type} {p after : Pipeline σ ω} {now : Instant}

theorem deliver_reports (p : Pipeline σ ω) (delivery : Delivery) :
    (p.deliver delivery).2.reports = p.reports := by
  obtain ⟨operations, wake, events⟩ := delivery
  cases operations with
  | nil => cases wake <;> cases events <;> rfl
  | cons op rest =>
    simp only [deliver, send]
    split <;> rfl

variable [OperationStore σ]

theorem Calls.reports {request : Request} (called : p.Calls now request after) :
    after.reports = p.reports := by
  cases called with
  | rejected => rfl
  | accepted =>
    unfold owe
    split <;> rfl

theorem Serves.reports {breakdown : Breakdown} {calls : List Request}
    (served : p.Serves now breakdown calls after) : after.reports = p.reports := by
  cases served <;> rfl

variable [Worker ω]

/-- A report is to come from the hand-over of its operation until it is made. -/
theorem Makes.reports {move : Move} (made : p.Makes now move after) :
    after.reports = match p.handsOver? move, move with
      | some op, _ => (p.handOver now op).reports
      | none, .report index => p.reports.eraseIdx index
      | none, _ => p.reports := by
  cases made with
  | deliver => exact deliver_reports p _
  | handOver stands queue =>
    simp only [handsOver?, stands, queue, List.head?_cons]
    rfl
  | serve stands _ served =>
    simp only [handsOver?, stands]
    exact served.reports
  | dispatcherDelivers stands =>
    simp only [handsOver?, stands]
    exact deliver_reports p _
  | look | wake | timerThrough | expire | expireRejected => rfl
  | timerDelivers => exact deliver_reports p _
  | report _ _ called => exact called.reports

end Pipeline

namespace Pipeline
variable {σ : Type} [OperationStore σ] {p after : Pipeline σ SimulatedWorker} {now : Instant}

/-- The simulated worker leaves no calls to the dispatcher. -/
theorem free_of_move? {move : Move} (free : p.dispatcher.isFree = true)
    (made : p.move? now move = some after) : after.dispatcher.isFree = true := by
  have makes := makes_of_move? made
  cases makes with
  | deliver => rwa [(p.deliver_frame _).2.2.2]
  | handOver => rfl
  | @serve _ breakdown calls _ stands done =>
    rw [stands, Dispatcher.isFree, Bool.and_eq_true, decide_eq_true_eq, List.isEmpty_iff] at free
    obtain ⟨rfl, rfl⟩ := free
    simp only [move?, stands, done, if_true] at made
    cases made
    rfl
  | dispatcherDelivers stands =>
    rw [stands] at free
    exact free
  | look | wake | timerThrough | expire | expireRejected => exact free
  | timerDelivers => rwa [(p.deliver_frame _).2.2.2]
  | report found due called => exact (called.dispatcher).symm ▸ free

/-- A free dispatcher requests nothing. So what a move requests is the pass that the timer is set
for, or it is a report, which then is no longer to come. -/
theorem Makes.requested {move : Move} (makes : p.Makes now move after)
    (free : p.dispatcher.isFree = true) (hands : p.handsOver? move = none) :
    (p.requestOf move = none ∧ after.reports = p.reports) ∨
      (p.requestOf move = some .dispatch ∧ after.reports = p.reports) ∨
      ∃ index report, p.reports[index]? = some report ∧
        p.requestOf move = some report.request ∧ after.reports = p.reports.eraseIdx index := by
  have reports := makes.reports
  rw [hands] at reports
  cases move with
  | deliver | attend => exact .inl ⟨rfl, reports⟩
  | dispatch =>
    refine .inl ⟨?_, reports⟩
    rw [requestOf]
    cases stands : p.dispatcher with
    | idle | ended => rfl
    | serving breakdown calls delivery =>
      rw [stands, Dispatcher.isFree, Bool.and_eq_true, List.isEmpty_iff] at free
      simp only [free.2, List.head?_nil, ite_self]
  | expire => exact .inr (.inl ⟨rfl, reports⟩)
  | report index =>
    cases makes with
    | @report _ _ report found due called =>
      refine .inr (.inr ⟨index, report, found, ?_, reports⟩)
      rw [requestOf, found]
      rfl

end Pipeline

/-! ### One act -/

/-- Acts that leave the statuses of operations to the dispatcher and the worker. -/
def Act.sparesStatuses {σ : Type} : Act σ → Bool
  | .call (.complete _) | .call (.skip _) | .call (.reset _ _) | .call (.forceActive _)
  | .meddle _ => false
  | .call _ | .advance _ | .retireMissing _ | .move _ => true

namespace Watched
variable {σ : Type} [OperationStore σ] {s after : Watched σ SimulatedWorker}

/-- What an act amounts to. A request of somebody else reports on nothing; the worker makes a report
that is due; or it is handed an operation, and the report on that is to come. -/
inductive Works (s after : Watched σ SimulatedWorker) (act : Act σ) : List Note → Prop where
  | nothing (retired : IdSet)
      (engine : after.pipeline.engine =
        { s.pipeline.engine with core := { s.pipeline.engine.core with retired } })
      (transit : after.pipeline.inTransit = s.pipeline.inTransit)
      (worker : after.pipeline.worker = s.pipeline.worker)
      (reports : after.pipeline.reports = s.pipeline.reports) : Works s after act []
  | asks (request : Request) (made : s.request? act = some request)
      (silent : request.outcome? = none)
      (engine : after.pipeline.engine = (s.pipeline.engine.apply s.clock request).2)
      (transit : after.pipeline.inTransit = s.pipeline.inTransit +
        (s.pipeline.entryFor s.clock request).dispatched)
      (worker : after.pipeline.worker = s.pipeline.worker)
      (reports : after.pipeline.reports = s.pipeline.reports) :
      Works s after act [.answered (s.pipeline.entryFor s.clock request)]
  | reports (index : Nat) (report : Report) (found : s.pipeline.reports[index]? = some report)
      (engine : after.pipeline.engine = (s.pipeline.engine.apply s.clock report.request).2)
      (transit : after.pipeline.inTransit = s.pipeline.inTransit +
        (s.pipeline.entryFor s.clock report.request).dispatched)
      (worker : after.pipeline.worker = s.pipeline.worker)
      (reports : after.pipeline.reports = s.pipeline.reports.eraseIdx index) :
      Works s after act [.answered (s.pipeline.entryFor s.clock report.request)]
  | handsOver (op : Operation) (due : Instant)
      (engine : after.pipeline.engine = s.pipeline.engine)
      (transit : after.pipeline.inTransit + {op} = s.pipeline.inTransit)
      (worker : after.pipeline.worker =
        (s.pipeline.worker.start s.pipeline.engine.core op).2)
      (reports : after.pipeline.reports =
        Report.insert
          ⟨due, s.pipeline.worker.outcome op.id (s.pipeline.worker.attemptsAt op.id + 1)⟩
          s.pipeline.reports) :
      Works s after act [.handedOver op]

theorem works_of_move (filed : s.pipeline.engine.core.Filed)
    (free : s.pipeline.dispatcher.isFree = true) {move : Move}
    (acted : s.act? (.move move) = some after) :
    s.Works after (.move move) (s.notesOf (.move move)) ∧
      after.pipeline.dispatcher.isFree = true := by
  obtain ⟨pipeline, made, rfl⟩ := Option.map_eq_some_iff.mp acted
  have stillFree := Pipeline.free_of_move? free made
  refine ⟨?_, stillFree⟩
  have makes := Pipeline.makes_of_move? made
  have alive := Dispatcher.alive_of_isFree stillFree
  have transit := (makes.transfers (Dispatcher.alive_of_isFree free) alive).transit alive
  have engine := (makes.timer_cases filed).1
  have worker := makes.worker
  have noted : s.notesOf (.move move) = s.pipeline.notes s.clock move := rfl
  rw [noted]
  rw [Pipeline.notes] at transit ⊢
  cases hands : s.pipeline.handsOver? move with
  | some op =>
    have reports := makes.reports
    rw [Pipeline.requestOf_of_handsOver hands] at engine
    rw [hands] at worker reports
    simp only [hands, handedOverIn_singleton, dispatchedIn_singleton] at transit
    exact .handsOver op _ engine (transit.trans (add_zero _)) worker reports
  | none =>
    rw [hands] at worker
    simp only [hands] at transit
    rcases makes.requested free hands with
      ⟨asked, reports⟩ | ⟨asked, reports⟩ | ⟨index, report, found, asked, reports⟩
    all_goals
      rw [asked] at engine
      simp only [asked, Option.toList_none, Option.toList_some, List.map_nil, List.map_cons,
        handedOverIn_nil, dispatchedIn_nil, handedOverIn_singleton, dispatchedIn_singleton]
        at transit ⊢
    · exact .nothing _ engine ((add_zero _).symm.trans (transit.trans (add_zero _))) worker reports
    · exact .asks .dispatch asked rfl engine ((add_zero _).symm.trans transit) worker reports
    · exact .reports index report found engine ((add_zero _).symm.trans transit) worker reports

theorem works_of_act (filed : s.pipeline.engine.core.Filed)
    (free : s.pipeline.dispatcher.isFree = true) {act : Act σ}
    (spares : act.sparesStatuses = true) (acted : s.act? act = some after) :
    s.Works after act (s.notesOf act) ∧ after.pipeline.dispatcher.isFree = true := by
  cases ensues_of_act? acted with
  | advance | retireMissing => exact ⟨.nothing _ rfl rfl rfl rfl, free⟩
  | meddle => cases spares
  | move => exact works_of_move filed free acted
  | @call request _ called =>
    have stillFree := called.dispatcher.symm ▸ free
    have alive := Dispatcher.alive_of_isFree stillFree
    have transit := (called.transfers (Dispatcher.alive_of_isFree free)).transit alive
    rw [handedOverIn_singleton, dispatchedIn_singleton] at transit
    have silent : request.outcome? = none := by
      cases request with
      | complete | skip | reset | forceActive => cases spares
      | append | restore | setHold | setLimit | suspend | resume | dispatch => rfl
    exact ⟨.asks request rfl silent (called.keeps filed).1 ((add_zero _).symm.trans transit)
      called.worker called.reports, stillFree⟩

end Watched

end CommitPipeline
