import CommitPipeline.Pipeline.Basic

/-! What happens in a running pipeline. Callers, the dispatcher and the hold timer work at the same
time. Each of them changes the state in one piece, but tells the others only afterwards and bit by
bit, so that anybody may act in between. A run is a sequence of calls and moves. -/
namespace CommitPipeline

/-- One bit of work that is done beside the calls. -/
inductive Move where
  /-- A caller goes on with its delivery. -/
  | deliver (caller : Nat)
  /-- The dispatcher takes an operation or goes on with the one it has. -/
  | dispatch
  /-- The timer looks for the next hold, or takes up its wake-ups, or goes on delivering. -/
  | attend
  /-- The timer starts what is ready at its deadline. -/
  | expire
  /-- A worker makes a report that is due. -/
  | report (index : Nat)
  deriving DecidableEq

namespace Pipeline
variable {σ ω : Type}

/-- Sends an operation to the dispatcher; after its end nobody takes it. -/
def send (p : Pipeline σ ω) (op : Operation) : Pipeline σ ω :=
  match p.dispatcher with
  | .ended => p
  | _ => { p with outbox := p.outbox ++ [op] }

/-- Delivers one bit and returns what is left. -/
def deliver (p : Pipeline σ ω) : Delivery → Delivery × Pipeline σ ω
  | ⟨op :: operations, wake, events⟩ => (⟨operations, wake, events⟩, p.send op)
  | ⟨[], true, events⟩ => (⟨[], false, events⟩, { p with wakes := p.wakes + 1 })
  | ⟨[], false, event :: events⟩ =>
    (⟨[], false, events⟩, { p with publisher := p.publisher.publish event })
  | ⟨[], false, []⟩ => (.none, p)

/-- Adds a delivery, if there is something to deliver. -/
def owe (p : Pipeline σ ω) (delivery : Delivery) : Pipeline σ ω :=
  if delivery.isDone then p else { p with deliveries := p.deliveries ++ [delivery] }

variable [OperationStore σ]

/-- Changes the state in one piece. Nobody is told yet. -/
def change (p : Pipeline σ ω) (now : Instant) (request : Request) :
    Except Error Step × Pipeline σ ω :=
  let (answer, engine) := p.engine.apply now request
  (answer, { p with engine })

/-- The change of a call. Its delivery is left to the caller's moves. -/
def call (p : Pipeline σ ω) (now : Instant) (request : Request) :
    Except Error Unit × Pipeline σ ω :=
  match p.change now request with
  | (.error error, p) => (.error error, p)
  | (.ok step, p) => (.ok (), p.owe (.ofStep step))

/-- A breakdown ends the dispatcher; what was on its way to it is lost. -/
def breakDown (p : Pipeline σ ω) : Pipeline σ ω :=
  { p with dispatcher := .ended, outbox := [] }

/-- The dispatcher goes on while the worker makes its calls. -/
def serve (p : Pipeline σ ω) (now : Instant) (breakdown : Breakdown) :
    List Request → Pipeline σ ω
  | [] => if breakdown = .always then p.breakDown else { p with dispatcher := .idle }
  | request :: calls =>
    match p.change now request with
    | (.ok step, p) => { p with dispatcher := .serving breakdown calls (.ofStep step) }
    | (.error _, p) =>
      if breakdown = .onRejection then p.breakDown
      else { p with dispatcher := .serving breakdown calls .none }

/-- Hands an operation to the worker. -/
def handOver [Worker ω] (p : Pipeline σ ω) (now : Instant) (op : Operation) : Pipeline σ ω :=
  let (reaction, worker) := Worker.start p.worker p.engine.core op
  { p with
    worker
    dispatcher := .serving reaction.breakdown reaction.calls .none
    reports := match reaction.report with
      | some (delay, request) => Report.insert ⟨now.after delay, request⟩ p.reports
      | none => p.reports }

/-- Makes a move, if it can be made now. -/
def move? [Worker ω] (p : Pipeline σ ω) (now : Instant) : Move → Option (Pipeline σ ω)
  | .deliver caller =>
    match p.deliveries[caller]? with
    | none => none
    | some delivery =>
      let (rest, p) := p.deliver delivery
      some { p with deliveries :=
        if rest.isDone then p.deliveries.eraseIdx caller else p.deliveries.set caller rest }
  | .dispatch =>
    match p.dispatcher with
    | .ended => none
    | .idle =>
      match p.outbox with
      | [] => none
      | op :: outbox => some ({ p with outbox }.handOver now op)
    | .serving breakdown calls delivery =>
      if delivery.isDone then some (p.serve now breakdown calls)
      else
        let (rest, p) := p.deliver delivery
        some { p with dispatcher := .serving breakdown calls rest }
  | .attend =>
    match p.timer with
    | .reading => some { p with timer := .parked (p.engine.core.nextHold now) }
    | .parked _ => if p.wakes = 0 then none else some { p with wakes := 0, timer := .reading }
    | .delivering delivery =>
      if delivery.isDone then some { p with timer := .reading }
      else
        let (rest, p) := p.deliver delivery
        some { p with timer := .delivering rest }
  | .expire =>
    match p.timer with
    | .parked (some deadline) =>
      if now < deadline then none
      else match p.change now .dispatch with
        | (.ok step, p) => some { p with timer := .delivering (.ofStep step) }
        | (.error _, p) => some { p with timer := .reading }
    | _ => none
  | .report index =>
    match p.reports[index]? with
    | none => none
    | some report =>
      if now < report.due then none
      else some ({ p with reports := p.reports.eraseIdx index }.call now report.request).2

end Pipeline
end CommitPipeline
