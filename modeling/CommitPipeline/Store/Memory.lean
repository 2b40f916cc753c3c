import Std.Data.ExtTreeMap
import CommitPipeline.Names
import CommitPipeline.Store.Basic

/-! A store in memory. It keeps the operations of each snapshot in their order and, for each
identifier, the snapshot it is stored under. -/
namespace CommitPipeline

structure Memory where
  graphs : Std.ExtTreeMap Nat (List Operation)
  snapshotOf : Std.ExtTreeMap OperationId Nat
  /-- Refuses every write while set. -/
  readOnly : Bool

namespace Memory

def empty : Memory := ⟨∅, ∅, false⟩

/-- Changes the first operation with an identifier. -/
def changeFirst (id : OperationId) (change : Operation → Operation) :
    List Operation → List Operation
  | [] => []
  | op :: rest => if op.id = id then change op :: rest else op :: changeFirst id change rest

/-- The stored operation with an identifier. -/
def get? (m : Memory) (id : OperationId) : Option Operation := do
  let snapshot ← m.snapshotOf[id]?
  let operations ← m.graphs[snapshot]?
  operations.find? (·.id = id)

/-- How many identifiers have a record. -/
def size (m : Memory) : Nat := m.snapshotOf.size

/-- Changes the stored operation with an identifier. -/
def update (m : Memory) (id : OperationId) (change : Operation → Operation) :
    Except Error Unit × Memory :=
  match m.snapshotOf[id]? with
  | none => (.error (.unknownOperation id), m)
  | some snapshot =>
    if (m.get? id).isSome then
      (.ok (), { m with graphs := m.graphs.modify snapshot (changeFirst id change) })
    else (.error (.unknownOperation id), m)

/-- Files an identifier under a snapshot and drops the record it had. -/
def refile (snapshot : Nat) (m : Memory) (id : OperationId) : Memory :=
  let graphs := match m.snapshotOf[id]? with
    | some former => m.graphs.modify former fun operations => operations.filter (·.id ≠ id)
    | none => m.graphs
  { m with graphs, snapshotOf := m.snapshotOf.insert id snapshot }

/-- Adds the dependencies of the edges one after the other, up to one without a record. -/
def addEdges (m : Memory) : List Edge → Except Error Unit × Memory
  | [] => (.ok (), m)
  | edge :: rest =>
    match m.update edge.operation (·.dependingOn edge.dependsOn) with
    | (.ok (), m) => addEdges m rest
    | failed => failed

/-- Stores a batch. Every edge must start at an operation of the batch or of the store; records
of the batch that exist already are replaced, and move to the end of their snapshot. -/
def save (m : Memory) (snapshot : Nat) (operations : List Operation) (edges : List Edge) :
    Except Error Unit × Memory :=
  let ids := operations.map (·.id)
  match edges.find? fun e => !ids.contains e.operation && !m.snapshotOf.contains e.operation with
  | some edge => (.error (.unknownOperation edge.operation), m)
  | none =>
    let m := ids.foldl (refile snapshot) m
    let graphs := m.graphs.filter fun _ operations => !operations.isEmpty
    let graphs := graphs.alter snapshot fun kept => some (kept.getD [] ++ operations)
    addEdges { m with graphs } edges

/-- Deletes a record, and the entry of its snapshot with the last record in it. -/
def delete (m : Memory) (id : OperationId) : Except Error Unit × Memory :=
  match m.snapshotOf[id]? with
  | none => (.error (.unknownOperation id), m)
  | some snapshot =>
    let graphs := m.graphs.alter snapshot fun kept =>
      match (kept.getD []).filter (·.id ≠ id) with
      | [] => none
      | operations => some operations
    (.ok (), { m with graphs, snapshotOf := m.snapshotOf.erase id })

/-- Performs a write. -/
def perform (m : Memory) (write : Write) : Except Error Unit × Memory :=
  if m.readOnly then (.error (.storage .readOnly), m)
  else match write with
    | .save snapshot operations edges => m.save snapshot operations edges
    | .status id status => m.update id ({ · with status })
    | .hold id hold => m.update id ({ · with hold })
    | .statusAndHold id status hold => m.update id ({ · with status, hold })
    | .delete id => m.delete id

instance : OperationStore Memory := ⟨perform⟩

/-- The stored batches by ascending snapshot. -/
def batches (m : Memory) : List Batch :=
  m.graphs.toList.map fun (snapshot, operations) => ⟨snapshot, operations⟩

/-- What is stored for a pipeline. -/
def restore (m : Memory) (names : Names) : List Batch :=
  Batch.owned names m.batches

end Memory
end CommitPipeline
