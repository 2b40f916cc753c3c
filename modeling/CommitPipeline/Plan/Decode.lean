import CommitPipeline.Limit
import CommitPipeline.Plan.Basic
import CommitPipeline.Plan.Node
import CommitPipeline.Text.Excerpt
import CommitPipeline.Toml.Document

/-! Plans out of nodes. Missing parts have defaults, unknown ones are skipped, and a list may stand
for a section with the parts in their order. What a section has is read before it is asked what it
lacks. -/
namespace CommitPipeline.Plan.Decode

open Text (Span Placed)

/-- In what the two formats differ. -/
structure Format where
  /-- Whether a list that stands for a section may not be longer than its parts. -/
  exactLists : Bool
  /-- What may stand behind a name that has no content. -/
  isUnit : Node → Bool

def Format.json : Format where
  exactLists := true
  isUnit
    | .null => true
    | _ => false

def Format.toml : Format where
  exactLists := false
  isUnit
    | .list [] => true
    | .table [] => true
    | _ => false

/-- What is read, or the first mismatch and its place. -/
abbrev Reading := Except (Placed Mismatch)

/-- Refuses a node of the wrong kind. A number without value is refused for that. -/
def refuseKind {α : Type} (wanted : String) (n : Placed Node) : Reading α :=
  .error ⟨n.span, match n.content with
    | .integer none => .integerWithoutValue
    | .real none => .realWithoutValue
    | found => .kind found wanted⟩

def text (n : Placed Node) : Reading String :=
  match n.content with
  | .text s => .ok s
  | _ => refuseKind "a string" n

/-- An integer between two bounds. -/
def integer (low high : Int) (wanted : String) (n : Placed Node) : Reading Int :=
  match n.content with
  | .integer (some i) =>
    if low ≤ i ∧ i ≤ high then .ok i
    else if Node.fits i then .error ⟨n.span, .range n.content wanted⟩
    else refuseKind wanted n
  | _ => refuseKind wanted n

/-- A natural number of so many bits. -/
def natural (bits : Nat) (wanted : String) (n : Placed Node) : Reading Nat :=
  return (← integer 0 (Int.pow 2 bits - 1) wanted n).toNat

def list {α : Type} (read : Placed Node → Reading α) (n : Placed Node) : Reading (List α) :=
  match n.content with
  | .list items => items.mapM read
  | _ => refuseKind "a sequence" n

/-- The algorithm with exactly this name. -/
def namedAlgorithm (name : Placed String) : Reading Algorithm :=
  match Algorithm.ofLabel? name.content with
  | some a => .ok a
  | none => .error ⟨name.span, .unknownAlgorithm name.content⟩

/-- An algorithm is its name, or a table with that name alone and nothing in it. -/
def algorithm (f : Format) (n : Placed Node) : Reading Algorithm :=
  match n.content with
  | .text s => namedAlgorithm ⟨n.span, s⟩
  | .table [(name, content)] => do
    let a ← namedAlgorithm name
    if f.isUnit content.content then return a
    else .error ⟨content.span, .algorithmContent content.content⟩
  | .table entries => .error ⟨n.span, .algorithmCount !entries.isEmpty⟩
  | _ => .error ⟨n.span, .notAlgorithm⟩

mutual

/-- A payload in JSON, which has no moments, and null for what is not a finite number. -/
def payload (span : Span) : Node → Reading Json
  | .null => .ok .null
  | .bool b => .ok (.bool b)
  | .integer none => .error ⟨span, .integerWithoutValue⟩
  | .integer (some n) => if Node.fits n then .ok (.int n) else .error ⟨span, .notInJson⟩
  | .real none => .error ⟨span, .realWithoutValue⟩
  | .real (some (.finite x)) => .ok (.number (.float x))
  | .real (some _) => .ok .null
  | .text s => .ok (.text s)
  | .moment s => .ok (.object [(Node.momentField, .text s)])
  | .list items => return .list (← payloadItems [] items)
  | .table entries => return .ofFields (← payloadFields [] entries)

/-- The items of a payload, behind those found before, the latest first. -/
def payloadItems (found : List Json) : List (Placed Node) → Reading (List Json)
  | [] => .ok found.reverse
  | ⟨span, item⟩ :: rest => do
    let value ← payload span item
    payloadItems (value :: found) rest

/-- The fields of a payload, behind those found before, the latest first. -/
def payloadFields (found : List (String × Json)) :
    List (Placed String × Placed Node) → Reading (List (String × Json))
  | [] => .ok found.reverse
  | (name, ⟨span, value⟩) :: rest => do
    let value ← payload span value
    payloadFields ((name.content, value) :: found) rest

end

mutual

/-- Skips a part that nothing is wanted of. Its numbers must have values all the same. -/
def skip (span : Span) : Node → Reading Unit
  | .integer none => .error ⟨span, .integerWithoutValue⟩
  | .real none => .error ⟨span, .realWithoutValue⟩
  | .list items => skipItems items
  | .table entries => skipEntries entries
  | _ => .ok ()

def skipItems : List (Placed Node) → Reading Unit
  | [] => .ok ()
  | ⟨span, item⟩ :: rest => do
    skip span item
    skipItems rest

def skipEntries : List (Placed String × Placed Node) → Reading Unit
  | [] => .ok ()
  | (_, ⟨span, value⟩) :: rest => do
    skip span value
    skipEntries rest

end

/-- A section of a plan: its name in messages, its parts in their order, and those that must not be
missing. -/
structure Section where
  title : String
  parts : List String
  required : List String

namespace Section

/-- The parts of a section by name. Items of a list beyond the parts are not looked at. -/
def split (s : Section) (f : Format) (n : Placed Node) : Reading (List (String × Placed Node)) :=
  match n.content with
  | .table entries => .ok (entries.map fun (name, node) => (name.content, node))
  | .moment text => .ok [(Node.momentField, ⟨n.span, .text text⟩)]
  | .list items =>
    if f.exactLists && s.parts.length < items.length then
      .error ⟨n.span, .length items.length s.title s.parts.length⟩
    else .ok (s.parts.zip items)
  | _ => refuseKind ("struct " ++ s.title) n

/-- Refuses a section that lacks a part. -/
def checkComplete (s : Section) (n : Placed Node) (found : List String) : Reading Unit :=
  match s.required.find? (!found.contains ·), n.content with
  | none, _ => .ok ()
  | some _, .list items => .error ⟨n.span, .length items.length s.title s.parts.length⟩
  | some part, _ => .error ⟨n.span, .missing part⟩

/-- Reads a section: each of its parts is added to what was read before, to `start` at first. -/
def read {α : Type} (s : Section) (f : Format) (start : α)
    (add : α → String → Placed Node → Reading α) (n : Placed Node) : Reading α := do
  let parts ← s.split f n
  let found ← parts.foldlM (fun found (name, node) => add found name node) start
  s.checkComplete n (parts.map (·.1))
  return found

end Section

def operationSection : Section where
  title := "OperationConfig"
  parts := ["name", "priority", "after", "payload"]
  required := ["name"]

def operation (f : Format) : Placed Node → Reading PlannedOperation :=
  operationSection.read f ⟨"", 0, [], .null⟩ fun op name node =>
    match name with
    | "name" => return { op with name := ← text node }
    | "priority" =>
      return { op with priority := ← integer (-Int.pow 2 31) (Int.pow 2 31 - 1) "i32" node }
    | "after" => return { op with after := ← list text node }
    | "payload" => return { op with payload := ← payload node.span node.content }
    | _ => do
      skip node.span node.content
      return op

def graphSection : Section where
  title := "GraphConfig"
  parts := ["snapshot", "operation"]
  required := ["snapshot"]

def graph (f : Format) : Placed Node → Reading PlannedGraph :=
  graphSection.read f ⟨0, []⟩ fun graph name node =>
    match name with
    | "snapshot" => return { graph with snapshot := ← natural 64 "u64" node }
    | "operation" => return { graph with operations := ← list (operation f) node }
    | _ => do
      skip node.span node.content
      return graph

def workerSection : Section where
  title := "WorkerSection"
  parts := ["duration_ms", "fail_first_attempts", "retry_delay_ms"]
  required := []

def worker (f : Format) : Placed Node → Reading WorkerSettings :=
  workerSection.read f .default fun settings name node =>
    match name with
    | "duration_ms" => return { settings with durationMs := ← natural 64 "u64" node }
    | "fail_first_attempts" => return { settings with failFirst := ← natural 32 "u32" node }
    | "retry_delay_ms" => return { settings with retryDelayMs := ← natural 64 "u64" node }
    | _ => do
      skip node.span node.content
      return settings

def pipelineSection : Section where
  title := "PipelineSection"
  parts := ["name", "algorithm", "max_concurrent_operation_count", "previous_names"]
  required := ["name"]

/-- The plan of which only defaults are known. -/
def blank : Plan := ⟨"", .commitGraph, defaultLimit, [], .default, []⟩

/-- The settings of the pipeline, added to a plan. -/
def pipeline (f : Format) (plan : Plan) : Placed Node → Reading Plan :=
  pipelineSection.read f plan fun plan name node =>
    match name with
    | "name" => return { plan with name := ← text node }
    | "algorithm" => return { plan with algorithm := ← algorithm f node }
    | "max_concurrent_operation_count" => return { plan with limit := ← natural 64 "usize" node }
    | "previous_names" => return { plan with previousNames := ← list text node }
    | _ => do
      skip node.span node.content
      return plan

def planSection : Section where
  title := "RawConfigFile"
  parts := ["pipeline", "worker", "graph"]
  required := ["pipeline"]

/-- The plan a node stands for. -/
def plan (f : Format) : Placed Node → Reading Plan :=
  planSection.read f blank fun plan name node =>
    match name with
    | "pipeline" => pipeline f plan node
    | "worker" => return { plan with worker := ← worker f node }
    | "graph" => return { plan with graphs := ← list (graph f) node }
    | _ => do
      skip node.span node.content
      return plan

end Decode

/-- Reads a plan from a JSON value. -/
def ofJson (j : Json) : Except Mismatch Plan :=
  (Decode.plan .json ⟨.point 0, .ofJson j⟩).mapError (·.content)

/-- Why a text is not read as a plan, and where the reason is found. -/
inductive Unreadable where
  | notToml (fault : Toml.Fault)
  | notPlan (mismatch : Text.Placed Mismatch)

/-- What is said of a text that is not read as a plan. -/
def Unreadable.report (source : String) : Unreadable → String
  | .notToml fault => Text.excerpt "TOML parse error" source fault.span fault.problem.message
  | .notPlan mismatch =>
    Text.excerpt "TOML parse error" source mismatch.span mismatch.content.message

/-- Reads a plan from a TOML document. -/
def ofToml (source : String) : Except Unreadable Plan :=
  match Toml.parse source with
  | .error fault => .error (.notToml fault)
  | .ok document =>
    (Decode.plan .toml ⟨document.span, .ofToml document.content⟩).mapError .notPlan

end CommitPipeline.Plan
