import CommitPipeline.Pipeline.Move

/-! What a call or a move can be. Each act of a running pipeline is one of a few steps, and each step
stands for what was found and what was done; whoever asks what an act leaves alone goes through the
steps. -/
namespace CommitPipeline
namespace Pipeline
variable {σ ω : Type} {p after : Pipeline σ ω} {now : Instant}

theorem deliver_frame (p : Pipeline σ ω) (delivery : Delivery) :
    (p.deliver delivery).2.engine = p.engine ∧ (p.deliver delivery).2.timer = p.timer ∧
      (p.deliver delivery).2.deliveries = p.deliveries ∧
      (p.deliver delivery).2.dispatcher = p.dispatcher := by
  obtain ⟨operations, wake, events⟩ := delivery
  cases operations with
  | cons op rest =>
    simp only [deliver, send]
    split <;> exact ⟨rfl, rfl, rfl, rfl⟩
  | nil => cases wake <;> cases events <;> exact ⟨rfl, rfl, rfl, rfl⟩

variable [OperationStore σ]

/-- What becomes of a pipeline in a call: one that is rejected leaves nothing to deliver. -/
inductive Calls (p : Pipeline σ ω) (now : Instant) (request : Request) : Pipeline σ ω → Prop where
  | accepted {step : Step} {engine : Engine σ}
      (applied : p.engine.apply now request = (.ok step, engine)) :
      Calls p now request (owe { p with engine } (.ofStep step))
  | rejected {error : Error} {engine : Engine σ}
      (applied : p.engine.apply now request = (.error error, engine)) :
      Calls p now request { p with engine }

theorem calls (p : Pipeline σ ω) (now : Instant) (request : Request) :
    p.Calls now request (p.call now request).2 := by
  cases applied : p.engine.apply now request with
  | mk answer engine =>
    simp only [call, change, applied]
    cases answer with
    | error error => exact .rejected applied
    | ok step => exact .accepted applied

/-- What the dispatcher does when it has delivered everything: it makes the next call of the worker,
or is through with it. Either may be the end of the dispatcher. -/
inductive Serves (p : Pipeline σ ω) (now : Instant) (breakdown : Breakdown) :
    List Request → Pipeline σ ω → Prop where
  | through : Serves p now breakdown [] { p with dispatcher := .idle }
  | brokenDown : Serves p now breakdown [] p.breakDown
  | accepted {request : Request} {rest : List Request} {step : Step} {engine : Engine σ}
      (applied : p.engine.apply now request = (.ok step, engine)) :
      Serves p now breakdown (request :: rest)
        { p with engine, dispatcher := .serving breakdown rest (.ofStep step) }
  | rejected {request : Request} {rest : List Request} {error : Error} {engine : Engine σ}
      (applied : p.engine.apply now request = (.error error, engine)) :
      Serves p now breakdown (request :: rest)
        { p with engine, dispatcher := .serving breakdown rest .none }
  | givesUp {request : Request} {rest : List Request} {error : Error} {engine : Engine σ}
      (applied : p.engine.apply now request = (.error error, engine)) :
      Serves p now breakdown (request :: rest) (breakDown { p with engine })

theorem serves (p : Pipeline σ ω) (now : Instant) (breakdown : Breakdown)
    (calls : List Request) : p.Serves now breakdown calls (p.serve now breakdown calls) := by
  cases calls with
  | nil =>
    rw [serve]
    split
    · exact .brokenDown
    · exact .through
  | cons request rest =>
    cases applied : p.engine.apply now request with
    | mk answer engine =>
      simp only [serve, change, applied]
      cases answer with
      | ok step => exact .accepted applied
      | error error =>
        simp only
        split
        · exact .givesUp applied
        · exact .rejected applied

variable [Worker ω]

/-- The moves that can be made, and what becomes of the pipeline in each. -/
inductive Makes (p : Pipeline σ ω) (now : Instant) : Move → Pipeline σ ω → Prop where
  | deliver {caller : Nat} {delivery : Delivery} (found : p.deliveries[caller]? = some delivery) :
      Makes p now (.deliver caller) { (p.deliver delivery).2 with
        deliveries := if (p.deliver delivery).1.isDone
          then (p.deliver delivery).2.deliveries.eraseIdx caller
          else (p.deliver delivery).2.deliveries.set caller (p.deliver delivery).1 }
  | handOver {op : Operation} {outbox : List Operation} (stands : p.dispatcher = .idle)
      (queue : p.outbox = op :: outbox) : Makes p now .dispatch ({ p with outbox }.handOver now op)
  | serve {after : Pipeline σ ω} {breakdown : Breakdown} {calls : List Request}
      {delivery : Delivery} (stands : p.dispatcher = .serving breakdown calls delivery)
      (done : delivery.isDone = true) (served : p.Serves now breakdown calls after) :
      Makes p now .dispatch after
  | dispatcherDelivers {breakdown : Breakdown} {calls : List Request} {delivery : Delivery}
      (stands : p.dispatcher = .serving breakdown calls delivery) (left : delivery.isDone = false) :
      Makes p now .dispatch { (p.deliver delivery).2 with
        dispatcher := .serving breakdown calls (p.deliver delivery).1 }
  | look (stands : p.timer = .reading) :
      Makes p now .attend { p with timer := .parked (p.engine.core.nextHold now) }
  | wake {deadline : Option Instant} (stands : p.timer = .parked deadline) (woken : p.wakes ≠ 0) :
      Makes p now .attend { p with wakes := 0, timer := .reading }
  | timerThrough {delivery : Delivery} (stands : p.timer = .delivering delivery)
      (done : delivery.isDone = true) : Makes p now .attend { p with timer := .reading }
  | timerDelivers {delivery : Delivery} (stands : p.timer = .delivering delivery)
      (left : delivery.isDone = false) :
      Makes p now .attend { (p.deliver delivery).2 with
        timer := .delivering (p.deliver delivery).1 }
  | expire {deadline : Instant} {step : Step} {engine : Engine σ}
      (stands : p.timer = .parked (some deadline)) (due : ¬ now < deadline)
      (applied : p.engine.apply now .dispatch = (.ok step, engine)) :
      Makes p now .expire { p with engine, timer := .delivering (.ofStep step) }
  | expireRejected {deadline : Instant} {error : Error} {engine : Engine σ}
      (stands : p.timer = .parked (some deadline)) (due : ¬ now < deadline)
      (applied : p.engine.apply now .dispatch = (.error error, engine)) :
      Makes p now .expire { p with engine, timer := .reading }
  | report {after : Pipeline σ ω} {index : Nat} {report : Report}
      (found : p.reports[index]? = some report) (due : ¬ now < report.due)
      (called : Calls { p with reports := p.reports.eraseIdx index } now report.request after) :
      Makes p now (.report index) after

/-- Whatever move is made is one of these. -/
theorem makes_of_move? {move : Move} (made : p.move? now move = some after) :
    p.Makes now move after := by
  cases move with
  | deliver caller =>
    simp only [move?] at made
    split at made
    · cases made
    · rename_i delivery found
      cases made
      exact .deliver found
  | dispatch =>
    simp only [move?] at made
    split at made
    · cases made
    · rename_i stands
      split at made
      · cases made
      · rename_i op outbox queue
        cases made
        exact .handOver stands queue
    · rename_i breakdown calls delivery stands
      split at made
      · rename_i done
        cases made
        exact .serve stands done (p.serves ..)
      · rename_i left
        cases made
        exact .dispatcherDelivers stands (Bool.eq_false_iff.mpr left)
  | attend =>
    simp only [move?] at made
    split at made
    · rename_i stands
      cases made
      exact .look stands
    · rename_i deadline stands
      split at made
      · cases made
      · rename_i woken
        cases made
        exact .wake stands woken
    · rename_i delivery stands
      split at made
      · rename_i done
        cases made
        exact .timerThrough stands done
      · rename_i left
        cases made
        exact .timerDelivers stands (Bool.eq_false_iff.mpr left)
  | expire =>
    simp only [move?] at made
    split at made
    · rename_i deadline stands
      split at made
      · cases made
      · rename_i due
        cases applied : p.engine.apply now .dispatch with
        | mk answer engine =>
          simp only [change, applied] at made
          cases answer with
          | ok step =>
            cases made
            exact .expire stands due applied
          | error error =>
            cases made
            exact .expireRejected stands due applied
    · cases made
  | report index =>
    simp only [move?] at made
    split at made
    · cases made
    · rename_i report found
      split at made
      · cases made
      · rename_i due
        cases made
        exact .report found due (calls ..)

end Pipeline
end CommitPipeline
