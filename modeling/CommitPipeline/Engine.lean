import CommitPipeline.Request

/-! A pipeline with its store. Every accepted change ends in the same way: graphs that are through
leave the queue, ready operations take the free slots, and a change of activity is noted. -/
namespace CommitPipeline

/-- What one call did: the operations it started, in dispatch order, and its events. -/
structure Step where
  dispatched : List Operation
  events : EventSet

def Step.empty : Step := ⟨[], .none⟩

namespace Core

/-- Whether all members of a graph are final. -/
def isDrained (c : Core) (graph : Graph) : Bool :=
  graph.members.all fun id =>
    match c.table[id]? with
    | some op => op.status.isFinal
    | none => true

/-- Forgets a member of a drained graph, but for its being final. -/
def retire (c : Core) (id : OperationId) : Core :=
  { c with
    table := c.table.erase id
    recovered := c.recovered.erase id
    retired := c.retired.insert id }

/-- Takes the drained graphs out of the queue, wherever they stand, and tells whether there were
any. -/
def prune (c : Core) : Bool × Core :=
  let (gone, queue) := c.queue.prune c.isDrained
  (!gone.isEmpty, (gone.flatMap (·.members)).foldl retire { c with queue })

/-- Marks an operation as started by the dispatcher. -/
def start (c : Core) (op : Operation) : Core :=
  { c with table := c.table.insert op.id op, active := c.active.insert op.id }

/-- How many operations may be started. -/
def freeSlots (c : Core) : Nat :=
  if c.isSuspended then 0 else c.limit - c.active.size

/-- Notes whether the pipeline is active, and tells whether that changed. -/
def noteActivity (c : Core) : Bool × Core :=
  (c.isActive != c.wasActive, { c with wasActive := c.isActive })

end Core

/-- The state in memory and the store that keeps a copy of it. -/
structure Engine (σ : Type) where
  core : Core
  store : σ

namespace Engine
variable {σ : Type} [OperationStore σ]

/-- Starts operations in their order while there are free slots. A start whose write is refused
costs no slot; the next operation gets it. -/
def start (e : Engine σ) : List OperationId → Nat → List Operation × Engine σ
  | [], _ => ([], e)
  | _ :: _, 0 => ([], e)
  | id :: rest, free + 1 =>
    match OperationStore.perform e.store (.status id .active) with
    | (.error _, store) => start { e with store } rest (free + 1)
    | (.ok (), store) =>
      match e.core.table[id]? with
      | none => start { e with store } rest (free + 1)
      | some op =>
        let op := { op with status := .active }
        let (others, e) := start ⟨e.core.start op, store⟩ rest free
        (op :: others, e)

/-- Hands the free slots to the ready operations. -/
def dispatch (e : Engine σ) (now : Instant) : List Operation × Engine σ :=
  match e.core.freeSlots with
  | 0 => ([], e)
  | free => e.start (e.core.ready now) free

/-- The end of every accepted change. -/
def finish (e : Engine σ) (now : Instant) (events : EventSet) : Step × Engine σ :=
  let (pruned, core) := e.core.prune
  let (dispatched, e) := dispatch { e with core } now
  let (flipped, core) := e.core.noteActivity
  ({ dispatched
     events := { events with
       queueChanged := events.queueChanged || pruned || !dispatched.isEmpty
       activeStatusChanged := flipped } },
   { e with core })

/-- Performs the write of a change, if it has one. -/
def write (e : Engine σ) : Option Write → Except Error Unit × Engine σ
  | none => (.ok (), e)
  | some w =>
    let (answer, store) := OperationStore.perform e.store w
    (answer, { e with store })

/-- Answers a request. The store is written first; the state in memory follows only if the write
succeeds. -/
def apply (e : Engine σ) (now : Instant) (request : Request) : Except Error Step × Engine σ :=
  match e.core.changeFor now request with
  | .error error => (.error error, e)
  | .ok none => (.ok .empty, e)
  | .ok (some change) =>
    match e.write change.write with
    | (.error error, e) => (.error error, e)
    | (.ok (), e) =>
      let (step, e) := finish { e with core := change.core } now change.events
      (.ok step, e)

/-- Queues batches one after the other, up to the first that is rejected, and returns the answers. -/
def restoreEach (e : Engine σ) (now : Instant) : List Batch → List (Except Error Step) × Engine σ
  | [] => ([], e)
  | batch :: rest =>
    match e.apply now (.restore batch) with
    | (.error error, e) => ([.error error], e)
    | (.ok step, e) =>
      let (more, e) := restoreEach e now rest
      (.ok step :: more, e)

/-- Retires what the batches can no longer satisfy. -/
def retireMissing (e : Engine σ) (batches : List Batch) : Engine σ :=
  { e with core := e.core.retireMissing batches }

/-- A new pipeline on the same store. -/
def relaunch (e : Engine σ) (names : Names) (algorithm : Algorithm) : Engine σ :=
  { e with core := .new names algorithm }

end Engine
end CommitPipeline
