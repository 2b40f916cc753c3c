import CommitPipeline.Pipeline.Move
import CommitPipeline.Pipeline.Waiter

/-! Running a pipeline alone: the moves that can be made are made one after the other, and time
passes when there are none. -/
namespace CommitPipeline

/-- The moves of a run in which callers finish what they began and each task then does what it
can. -/
def Move.inTurn : List Move := [.deliver 0, .dispatch, .attend, .expire, .report 0]

/-- After so many moves, or so many instants, a run is left where it is. -/
def patience : Nat := 1000000

namespace Pipeline
variable {σ ω : Type} [OperationStore σ] [Worker ω]

/-- Makes at most so many moves, always the first that can be made. -/
def makeMoves (now : Instant) (order : List Move) : Nat → Pipeline σ ω → Pipeline σ ω
  | 0, p => p
  | n + 1, p =>
    match order.findSome? (p.move? now) with
    | some p => makeMoves now order n p
    | none => p

/-- Lets the callers finish their deliveries. -/
def flush (p : Pipeline σ ω) (now : Instant) : Pipeline σ ω :=
  p.makeMoves now [.deliver 0] (p.deliveries.foldl (· + ·.size) 0)

/-- Makes all the moves that can be made. -/
def settle (p : Pipeline σ ω) (now : Instant) : Pipeline σ ω :=
  p.makeMoves now Move.inTurn patience

/-- A call with its delivery. -/
def request (p : Pipeline σ ω) (now : Instant) (request : Request) :
    Except Error Unit × Pipeline σ ω :=
  let (answer, p) := p.call now request
  (answer, p.flush now)

/-- Makes calls one after the other, whatever becomes of them. -/
def requestEach (p : Pipeline σ ω) (now : Instant) :
    List Request → List (Except Error Unit) × Pipeline σ ω
  | [] => ([], p)
  | request :: rest =>
    let (answer, p) := p.request now request
    let (answers, p) := p.requestEach now rest
    (answer :: answers, p)

/-- What happens at an instant under the eyes of an observer, who looks before and after. Nothing
happens if the observer is content with the first look. -/
def observe {α : Type} (look : Instant → Pipeline σ ω → α → α) (content : α → Bool)
    (now : Instant) (a : α) (p : Pipeline σ ω) : α × Pipeline σ ω :=
  let first := look now p a
  if content first then (first, p)
  else
    let p := p.settle now
    (look now p first, p)

/-- Lets an observer watch the pipeline, from one instant at which something happens to the next,
until the observer is content or the time is up. -/
def watch {α : Type} (look : Instant → Pipeline σ ω → α → α) (content : α → Bool)
    (limit : Instant) : Nat → Instant → α → Pipeline σ ω → Instant × α × Pipeline σ ω
  | 0, now, a, p => (now, a, p)
  | n + 1, now, a, p =>
    let (a, p) := p.observe look content now a
    if content a then (now, a, p)
    else match p.nextDue? with
      | none => (limit, a, p)
      | some due =>
        if limit < due then (limit, a, p)
        else watch look content limit n (if now < due then due else now) a p

/-- Runs until a condition holds or the time is up, and tells whether it holds. -/
def runUntil (p : Pipeline σ ω) (now limit : Instant) (holds : Pipeline σ ω → Bool) :
    Instant × Bool × Pipeline σ ω :=
  p.watch (fun _ p _ => holds p) id limit patience now false

/-- Runs until somebody who waits for the pipeline to be drained goes on, or the time is up, and
tells which. -/
def drain (p : Pipeline σ ω) (now limit : Instant) : Instant × Bool × Pipeline σ ω :=
  let (now, waiter, p) := p.watch (fun _ => Waiter.follow) (· = .done) limit patience now (Waiter.new p)
  (now, waiter = .done, p)

end Pipeline
end CommitPipeline
