import CommitPipeline.Core

/-! The changes a pipeline can be asked for. A request is either rejected as a whole, or finds
that nothing is to be done, or leads to one write and a new state. -/
namespace CommitPipeline

inductive Request where
  /-- Queues the operations of a new commit. Its edges lead from operations of the commit or from
  queued ones to operations of the commit. -/
  | append (snapshot : Nat) (operations : List Operation) (edges : List Edge)
  /-- Queues a stored batch again. -/
  | restore (batch : Batch)
  | complete (id : OperationId)
  | skip (id : OperationId)
  /-- Gives a running operation back, to be held for the delay. -/
  | reset (id : OperationId) (delay : Option Delay)
  /-- Marks a pending operation as running already. -/
  | forceActive (id : OperationId)
  | setHold (id : OperationId) (hold : Option Instant)
  | setLimit (limit : Nat)
  | suspend (count : Nat)
  | resume
  /-- Starts what has become ready. -/
  | dispatch

/-- An admitted request: the write that has to succeed first, the state after the change, and
the events of the change. -/
structure Change where
  write : Option Write
  core : Core
  events : EventSet

namespace Core

/-- The identifiers of a batch must be neither live nor among those seen before them. -/
def checkFresh (c : Core) (seen : IdSet) : List OperationId → Except Error Unit
  | [] => .ok ()
  | id :: rest =>
    if c.table.contains id || seen.contains id then .error (.duplicateOperation id)
    else c.checkFresh (seen.insert id) rest

/-- The edges that start at queued operations. Each edge must end in the batch, and start there
or at a queued operation that is not final. -/
def edgesFromQueued (c : Core) (batch : List OperationId) : List Edge → Except Error (List Edge)
  | [] => .ok []
  | edge :: rest =>
    if !batch.contains edge.dependsOn then .error (.unknownOperation edge.dependsOn)
    else if batch.contains edge.operation then c.edgesFromQueued batch rest
    else do
      let status ← c.statusOf edge.operation
      if status.isFinal then
        .error (.invalidTransition edge.operation status .addDependency)
      else return edge :: (← c.edgesFromQueued batch rest)

/-- The operation with the dependencies of the edges that start at it. -/
def withEdges (edges : List Edge) (op : Operation) : Operation :=
  edges.foldl (fun op e => if e.operation = op.id then op.dependingOn e.dependsOn else op) op

/-- Adds the operations of a batch to the table. -/
def enlist (table : Table) (operations : List Operation) : Table :=
  operations.foldl (fun table op => table.insert op.id op) table

/-- The change that queues a batch; an empty one advances the latest snapshot and nothing else. -/
def queueBatch (c : Core) (queue : Queue) (snapshot : Nat) (operations : List Operation)
    (edges : List Edge) : Change :=
  let table := edges.foldl
    (fun table e => table.modify e.operation (·.dependingOn e.dependsOn)) c.table
  { write := if operations.isEmpty then none else some (.save snapshot operations edges)
    core := { c with queue, table := enlist table operations }
    events := if operations.isEmpty then .none else .queue }

def appendChange (c : Core) (snapshot : Nat) (operations : List Operation) (edges : List Edge) :
    Except Error Change := do
  let ids := operations.map (·.id)
  let queue ← c.queue.push ⟨snapshot, ids⟩
  c.checkFresh ∅ ids
  let outer ← c.edgesFromQueued ids edges
  let stamped := operations.map fun op =>
    withEdges edges { op with pipeline := c.names.current, snapshot, status := .pending }
  return c.queueBatch queue snapshot stamped outer

/-- Operations of other pipelines are left out; the others take the current name. -/
def restoreChange (c : Core) (batch : Batch) : Except Error Change := do
  let own := batch.operations.filter fun op => c.names.owns op.pipeline
  let ids := own.map (·.id)
  let queue ← c.queue.push ⟨batch.snapshot, ids⟩
  c.checkFresh ∅ ids
  let stamped := own.map fun op =>
    { op with pipeline := c.names.current, snapshot := batch.snapshot, status := .pending }
  return c.queueBatch queue batch.snapshot stamped []

/-- The change that makes an operation final and deletes its record. -/
def finalize (c : Core) (id : OperationId) (status : Status) : Change where
  write := some (.delete id)
  core := { c with table := c.table.modify id ({ · with status }), active := c.active.erase id }
  events := .queue

def completeChange (c : Core) (id : OperationId) : Except Error Change := do
  let status ← c.statusOf id
  if status = .active then return c.finalize id .completed
  else .error (.invalidTransition id status .complete)

def skipChange (c : Core) (id : OperationId) : Except Error Change := do
  let status ← c.statusOf id
  if status.isFinal then .error (.invalidTransition id status .skip)
  else return c.finalize id .skipped

/-- Without a delay the hold stays as it is. -/
def resetChange (c : Core) (id : OperationId) (delay : Option Delay) (now : Instant) :
    Except Error Change := do
  let status ← c.statusOf id
  if status = .active then
    let hold := delay.map now.after
    return {
      write := match hold with
        | some _ => some (.statusAndHold id .pending hold)
        | none => some (.status id .pending)
      core := { c with
        table := c.table.modify id fun op =>
          { op with status := .pending, hold := hold.or op.hold }
        active := c.active.erase id }
      events := .queue }
  else .error (.invalidTransition id status .reset)

/-- The operation takes no slot: it is not among those handed out. -/
def forceActiveChange (c : Core) (id : OperationId) : Except Error Change := do
  let status ← c.statusOf id
  if status = .pending && !c.recovered.contains id then
    return {
      write := some (.status id .active)
      core := { c with
        table := c.table.modify id ({ · with status := .active })
        recovered := c.recovered.insert id }
      events := .queue }
  else .error (.invalidTransition id status .forceActive)

def setHoldChange (c : Core) (id : OperationId) (hold : Option Instant) :
    Except Error (Option Change) := do
  let current ← c.holdOf id
  if current = hold then return none
  else return some {
    write := some (.hold id hold)
    core := { c with table := c.table.modify id ({ · with hold }) }
    events := .queue }

/-- Decides on a request before anything is changed. There is no change if the request asks for
what is the case already. -/
def changeFor (c : Core) (now : Instant) : Request → Except Error (Option Change)
  | .append snapshot operations edges => return some (← c.appendChange snapshot operations edges)
  | .restore batch => return some (← c.restoreChange batch)
  | .complete id => return some (← c.completeChange id)
  | .skip id => return some (← c.skipChange id)
  | .reset id delay => return some (← c.resetChange id delay now)
  | .forceActive id => return some (← c.forceActiveChange id)
  | .setHold id hold => c.setHoldChange id hold
  | .setLimit limit =>
    if limit = c.limit then .ok none
    else .ok (some ⟨none, { c with limit }, .none⟩)
  | .suspend count =>
    if count = 0 then .ok none
    else .ok (some
      ⟨none, { c with suspendCount := min (c.suspendCount + count) maxCount }, .suspendCount⟩)
  | .resume =>
    if c.suspendCount = 0 then .ok none
    else .ok (some ⟨none, { c with suspendCount := c.suspendCount - 1 }, .suspendCount⟩)
  | .dispatch => .ok (some ⟨none, c, .none⟩)

/-- Records the dependencies that no restored or queued operation can satisfy as final: a final
operation is deleted from the store, so one that is missing there must have been finished in an
earlier run. -/
def retireMissing (c : Core) (batches : List Batch) : Core :=
  let own := batches.flatMap fun batch =>
    batch.operations.filter fun op => c.names.owns op.pipeline
  let restored : IdSet := Std.ExtTreeSet.ofList (own.map (·.id))
  let missing := own.flatMap fun op => op.dependencies.toList.filter fun id =>
    !restored.contains id && !c.table.contains id
  { c with retired := c.retired.insertMany missing }

end Core
end CommitPipeline
