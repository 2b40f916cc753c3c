import CommitPipeline.Json.Render
import CommitPipeline.Json.Written
import CommitPipeline.Operation
import CommitPipeline.Time.Rfc3339

/-! The stored form of an operation: a JSON object with one field for each part. Reading refuses
a part that is missing or out of range and a field given twice; it skips fields it does not
know. A list of the parts in their order is read as well. -/
namespace CommitPipeline.Record
open Json (Written)

/-- The names of the fields in their order. -/
def fieldNames : List String :=
  ["id", "pipeline", "snapshot", "status", "dependencies", "priority", "hold_until", "payload"]

/-- The stored form. -/
def encode (op : Operation) : Json :=
  Json.ofFields [
    ("id", .text (toString op.id)),
    ("pipeline", .text op.pipeline),
    ("snapshot", Json.nat op.snapshot),
    ("status", .text op.status.label),
    ("dependencies", .list (op.dependencies.toList.map fun id => .text (toString id))),
    ("priority", Json.int op.priority),
    ("hold_until", (op.hold.map fun t => Json.text (Rfc3339.render t)).getD .null),
    ("payload", op.payload)]

/-- The stored form as text. -/
def write (op : Operation) : String :=
  (encode op).render

def text? : Written → Option String
  | .text s => s
  | _ => none

def integer? (low high : Int) : Written → Option Int
  | .number (some (.int n)) => if low ≤ n ∧ n ≤ high then some n else none
  | _ => none

/-- A number of 64 bits. -/
def snapshot? (w : Written) : Option Nat :=
  (integer? 0 (Int.pow 2 64 - 1) w).map Int.toNat

/-- A number of 32 bits with sign. -/
def priority? : Written → Option Int :=
  integer? (-Int.pow 2 31) (Int.pow 2 31 - 1)

def id? (w : Written) : Option OperationId :=
  (text? w).bind OperationId.parse?

/-- A status is its name, or an object with that name alone and nothing in it. -/
def status? : Written → Option Status
  | .text (some s) => Status.ofLabel? s
  | .object [(some s, .null)] => Status.ofLabel? s
  | _ => none

def dependencies? : Written → Option IdSet
  | .list items => (items.mapM id?).map fun ids => Std.ExtTreeSet.ofList ids
  | _ => none

def hold? : Written → Option (Option Instant)
  | .null => some none
  | w => ((text? w).bind Rfc3339.parse?).map some

/-- How deep a payload may nest inside its record. -/
def payloadDepth : Nat := Json.maxDepth - 1

/-- The operation with these parts. -/
def ofParts? (id pipeline snapshot status dependencies priority hold payload : Written) :
    Option Operation := do
  return {
    id := ← id? id
    pipeline := ← text? pipeline
    snapshot := ← snapshot? snapshot
    status := ← status? status
    dependencies := ← dependencies? dependencies
    priority := ← priority? priority
    hold := ← hold? hold
    payload := ← payload.toJson? payloadDepth }

/-- Whether each known name occurs once at most. -/
def noneTwice (names : List String) : Bool :=
  fieldNames.all fun name => names.count name ≤ 1

/-- The operation a written value stands for. -/
def decode? : Written → Option Operation
  | .object fields => do
    let fields ← fields.mapM fun (name, value) => name.map (·, value)
    if noneTwice (fields.map (·.1)) then
      let part name := fields.lookup name
      ofParts? (← part "id") (← part "pipeline") (← part "snapshot") (← part "status")
        (← part "dependencies") (← part "priority") ((part "hold_until").getD .null)
        (← part "payload")
    else none
  | .list [id, pipeline, snapshot, status, dependencies, priority, hold, payload] =>
    ofParts? id pipeline snapshot status dependencies priority hold payload
  | _ => none

/-- Reads a stored operation. -/
def read? (s : String) : Option Operation :=
  (Written.parse? s).bind decode?

end CommitPipeline.Record
