import CommitPipeline.Pipeline.Basic

/-! Waiting until a pipeline is drained. The waiter subscribes before it looks for the first time,
so that no event after that look escapes it. -/
namespace CommitPipeline

inductive Waiter where
  /-- About to look at the pipeline. -/
  | looking (subscriber : Subscriber)
  /-- Asleep until it is told something. -/
  | parked (subscriber : Subscriber)
  | done
  deriving DecidableEq

namespace Waiter
variable {σ ω : Type}

def new (p : Pipeline σ ω) : Waiter := .looking p.publisher.subscribe

/-- The next step, if there is one. Whatever the waiter is told makes it look again. -/
def step? (p : Pipeline σ ω) : Waiter → Option Waiter
  | .looking s => some (if p.isDrained then .done else .parked s)
  | .parked s => (p.publisher.tell? s).map fun told => .looking told.2
  | .done => none

/-- Takes at most so many steps. -/
def steps (p : Pipeline σ ω) : Nat → Waiter → Waiter
  | 0, w => w
  | n + 1, w =>
    match w.step? p with
    | some w => steps p n w
    | none => w

/-- Takes all the steps that can be taken. -/
def follow (p : Pipeline σ ω) (w : Waiter) : Waiter :=
  match w with
  | .looking s | .parked s => w.steps p (2 * (p.publisher.waiting s).length + 2)
  | .done => .done

end Waiter
end CommitPipeline
