import CommitPipeline.Pipeline.Launch
import CommitPipeline.Store.Refusing
import CommitPipeline.Worker.Recorder
import CommitPipeline.Worker.Scripted

/-! Pipelines that follow one another on one store, for exercising what happens when a program is
started again. Time passes only while the session waits. -/
namespace CommitPipeline

abbrev ScriptedRun := Pipeline RefusingStore (Recorder ScriptedWorker)

structure Session where
  clock : Instant
  /-- The pipeline, or what is left of the store when there is none. -/
  live : Except RefusingStore ScriptedRun
  /-- A subscriber from right after the launch. -/
  subscriber : Subscriber
  /-- What earlier pipelines handed to their workers. -/
  earlier : List OperationId

namespace Session

/-- An empty store without a pipeline. -/
def new (clock : Instant) : Session := ⟨clock, .error .empty, ⟨0⟩, []⟩

def store (s : Session) : RefusingStore :=
  match s.live with
  | .ok run => run.engine.store
  | .error store => store

/-- Changes the store behind the back of the pipeline. -/
def withStore (s : Session) (store : RefusingStore) : Session :=
  match s.live with
  | .ok run => { s with live := .ok { run with engine := { run.engine with store } } }
  | .error _ => { s with live := .error store }

/-- What all the workers were handed, in order. -/
def started (s : Session) : List OperationId :=
  match s.live with
  | .ok run => s.earlier ++ run.worker.started
  | .error _ => s.earlier

/-- Gives the pipeline up. What was on its way to the worker never gets there. -/
def drop (s : Session) : Session :=
  { s with live := .error s.store, earlier := s.started }

/-- Launches a pipeline in place of the one there is and queues again what it is given. If that is
rejected there is no pipeline. -/
def launch (s : Session) (settings : LaunchSettings) (script : Script) (restored : List Batch) :
    Except Error Unit × Session :=
  let s := s.drop
  let worker := Recorder.new ⟨script, Std.ExtTreeSet.ofList s.earlier⟩
  let run : ScriptedRun := Pipeline.launch settings s.store worker s.clock
  match run.restore s.clock restored with
  | (.ok (), run) =>
    (.ok (), { s with live := .ok run, subscriber := run.publisher.subscribe })
  | (.error error, run) => (.error error, { s with live := .error run.engine.store })

/-- How long the tasks of a pipeline take to come to what a call has done: a microsecond. A hold
that ends sooner ends before the timer looks for it. -/
def reactionTime : Delay := .microsecond

/-- Waits until a condition holds, but not longer than so many milliseconds, and tells whether
it holds. -/
def wait (s : Session) (run : ScriptedRun) (millis : Nat) (holds : ScriptedRun → Bool) :
    Bool × Session :=
  let limit := s.clock.after (.ofMillis millis)
  let (clock, holds, run) := run.runUntil (s.clock.after reactionTime) limit holds
  (holds, { s with clock, live := .ok run })

/-- Waits until the pipeline is drained, but not longer than so many milliseconds. -/
def waitDrained (s : Session) (run : ScriptedRun) (millis : Nat) : Bool × Session :=
  let limit := s.clock.after (.ofMillis millis)
  let (clock, drained, run) := run.drain (s.clock.after reactionTime) limit
  (drained, { s with clock, live := .ok run })

/-- Gives the tasks of the pipeline a few milliseconds. -/
def settle (s : Session) : Session :=
  match s.live with
  | .ok run => (s.wait run 5 fun _ => false).2
  | .error _ => s

/-- What the subscriber is told. -/
def tell (s : Session) : List Notice × Session :=
  match s.live with
  | .ok run =>
    let (notices, subscriber) := run.publisher.tellAll s.subscriber
    (notices, { s with subscriber })
  | .error _ => ([], s)

end Session
end CommitPipeline
