import CommitPipeline.Algorithm
import CommitPipeline.Queue

/-! Which pending operations may start at an instant, in which order, and what the others wait
for. -/
namespace CommitPipeline

/-- The live operations by identifier. -/
abbrev Table := Std.ExtTreeMap OperationId Operation

/-- What the choice of operations looks at. `retired` holds the final operations whose graphs
are gone. -/
structure Readiness where
  queue : Queue
  table : Table
  retired : IdSet
  algorithm : Algorithm

/-- A live operation at its place in the queue. -/
structure Listed where
  graphIndex : Nat
  id : OperationId
  operation : Operation

/-- The live operations of some graphs in queue order; the first graph has the given index. -/
def Listed.ofGraphs (table : Table) : Nat → List Graph → List Listed
  | _, [] => []
  | index, graph :: rest =>
    (graph.members.filterMap fun id => table[id]?.map (⟨index, id, ·⟩))
      ++ ofGraphs table (index + 1) rest

/-- Puts an entry in front of the first one whose priority is not higher. -/
def Listed.insertByPriority (entry : Listed) : List Listed → List Listed
  | [] => [entry]
  | other :: rest =>
    if other.operation.priority ≤ entry.operation.priority then entry :: other :: rest
    else other :: insertByPriority entry rest

/-- The entries by priority, highest first; those of one priority stay in their order. -/
def Listed.byPriority (entries : List Listed) : List Listed :=
  entries.foldr insertByPriority []

namespace Readiness

/-- The graphs the algorithm draws from. -/
def candidates (r : Readiness) : List Graph :=
  match r.algorithm with
  | .commitGraph => r.queue.graphs.take 1
  | .flatGraph => r.queue.graphs

/-- The live operations of those graphs. -/
def considered (r : Readiness) : List Listed :=
  Listed.ofGraphs r.table 0 r.candidates

/-- Whether the algorithm draws from the graph of an operation. -/
def inCandidateGraph (r : Readiness) (op : Operation) : Bool :=
  match r.algorithm with
  | .flatGraph => true
  | .commitGraph =>
    match r.queue.oldest? with
    | some graph => graph.snapshot = op.snapshot
    | none => false

/-- Whether a dependency still holds an operation up. One outside the operation's graph never
does when graphs run one at a time; when all are considered, one that is not live does unless
it is known to be final, because it may still come. -/
def isUnmet (r : Readiness) (op : Operation) (dependency : OperationId) : Bool :=
  match r.table[dependency]? with
  | some other =>
    match r.algorithm with
    | .commitGraph => other.snapshot = op.snapshot && !other.status.isFinal
    | .flatGraph => !other.status.isFinal
  | none =>
    match r.algorithm with
    | .commitGraph => false
    | .flatGraph => !r.retired.contains dependency

/-- The dependencies that hold an operation up, in the order of their identifiers. -/
def unmet (r : Readiness) (op : Operation) : List OperationId :=
  op.dependencies.toList.filter (r.isUnmet op)

/-- Whether an operation may start at an instant. -/
def isReady (r : Readiness) (op : Operation) (now : Instant) : Bool :=
  op.status = .pending && r.inCandidateGraph op && !op.isHeld now && (r.unmet op).isEmpty

/-- The operations that may start, in the order in which they should: by priority, then by graph,
then by their place in the graph. -/
def ready (r : Readiness) (now : Instant) : List OperationId :=
  (Listed.byPriority (r.considered.filter fun entry => r.isReady entry.operation now)).map (·.id)

/-- A pending operation that is not held and waits for dependencies. -/
structure Blocked where
  graphIndex : Nat
  operation : Operation
  unmet : List OperationId

/-- The blocked operations of the candidate graphs in queue order. -/
def blocked (r : Readiness) (now : Instant) : List Blocked :=
  r.considered.filterMap fun entry =>
    let op := entry.operation
    if op.status = .pending && !op.isHeld now then
      match r.unmet op with
      | [] => none
      | unmet => some ⟨entry.graphIndex, op, unmet⟩
    else none

/-- The earliest hold after `now` of a pending operation in the candidate graphs. -/
def nextHold (r : Readiness) (now : Instant) : Option Instant :=
  Instant.earliest? <| r.considered.filterMap fun entry =>
    let op := entry.operation
    match op.hold with
    | some release => if op.status = .pending && now < release then some release else none
    | none => none

end Readiness
end CommitPipeline
