import CommitPipeline.Plan.Basic
import CommitPipeline.Text.Blank

/-! Which plans are accepted. A plan is refused for the first fault that is found: names first,
then the order of the snapshots, then each dependency, and at last cycles. -/
namespace CommitPipeline.Plan

inductive Fault where
  | blankName
  | currentNameAmongPrevious (name : String)
  | noGraphs
  | snapshotsNotIncreasing (earlier later : Nat)
  | nameUsedTwice (name : String)
  | unknownDependency (operation dependency : String)
  | dependsOnItself (operation : String)
  | dependencyTwice (operation dependency : String)
  | laterDependency (operation : String) (snapshot : Nat) (dependency : String) (later : Nat)
  | cycle (operation : String)
  deriving DecidableEq

def Fault.message : Fault → String
  | .blankName => "[pipeline].name must not be empty"
  | .currentNameAmongPrevious name =>
    "[pipeline].previous_names must not contain the current name '" ++ name ++ "'"
  | .noGraphs => "config must contain at least one [[graph]] table"
  | .snapshotsNotIncreasing earlier later =>
    "graph snapshots must be strictly increasing (got " ++ toString later ++ " after "
      ++ toString earlier ++ ")"
  | .nameUsedTwice name => "operation name '" ++ name ++ "' is used more than once"
  | .unknownDependency operation dependency =>
    "operation '" ++ operation ++ "' has unknown dependency '" ++ dependency ++ "' in `after`"
  | .dependsOnItself operation =>
    "operation '" ++ operation ++ "' cannot depend on itself in `after`"
  | .dependencyTwice operation dependency =>
    "operation '" ++ operation ++ "' lists dependency '" ++ dependency ++ "' more than once"
  | .laterDependency operation snapshot dependency later =>
    "operation '" ++ operation ++ "' (snapshot " ++ toString snapshot ++ ") depends on '"
      ++ dependency ++ "' from later snapshot " ++ toString later
      ++ "; only flat_graph pipelines allow that"
  | .cycle operation =>
    "cycle detected in operation dependencies involving '" ++ operation ++ "'"

def nameFault? (p : Plan) : Option Fault :=
  if Text.trimList p.name.toList = [] then some .blankName
  else if p.previousNames.contains p.name then some (.currentNameAmongPrevious p.name)
  else none

def emptyFault? (p : Plan) : Option Fault :=
  if p.graphs.isEmpty then some .noGraphs else none

/-- The first snapshot that does not exceed the one before it. -/
def orderFault? : List Nat → Option Fault
  | earlier :: later :: rest =>
    if later ≤ earlier then some (.snapshotsNotIncreasing earlier later)
    else orderFault? (later :: rest)
  | _ => none

/-- The first name that was used before. -/
def repeatedName? (seen : List String) : List String → Option String
  | [] => none
  | name :: rest => if seen.contains name then some name else repeatedName? (name :: seen) rest

/-- The first fault among the dependencies of an operation, those before them given. -/
def dependencyFault? (p : Plan) (snapshot : Nat) (operation : String) (seen : List String) :
    List String → Option Fault
  | [] => none
  | dependency :: rest =>
    match p.snapshotOf? dependency with
    | none => some (.unknownDependency operation dependency)
    | some later =>
      if dependency = operation then some (.dependsOnItself operation)
      else if seen.contains dependency then some (.dependencyTwice operation dependency)
      else if p.algorithm = .commitGraph ∧ snapshot < later then
        some (.laterDependency operation snapshot dependency later)
      else dependencyFault? p snapshot operation (dependency :: seen) rest

/-- The first fault among the dependencies of a plan. -/
def dependenciesFault? (p : Plan) : Option Fault :=
  p.graphs.findSome? fun g =>
    g.operations.findSome? fun op => p.dependencyFault? g.snapshot op.name [] op.after

/-- The state of a depth-first walk: the names met, and the names done with, the latest first. -/
structure Walk where
  met : List String
  done : List String

/-- Walks to a name and, before it is done with, to its dependents, the last one first. The first
argument bounds the depth. -/
def visit (p : Plan) : Nat → Walk → String → Walk
  | 0, w, _ => w
  | n + 1, w, name =>
    if w.met.contains name then w
    else
      let w := (p.dependents name).reverse.foldl (visit p n) { w with met := name :: w.met }
      { w with done := name :: w.done }

/-- The names of a plan in the order of a depth-first walk, the last one done with first. If there
is no cycle, each name stands behind its dependencies. -/
def walkOrder (p : Plan) : List String :=
  (p.operationNames.foldl (p.visit (p.operationCount + 1)) ⟨[], []⟩).done

/-- The last dependency of the first name that does not stand behind all its dependencies. -/
def misplaced? (p : Plan) (before : List String) : List String → Option String
  | [] => none
  | name :: rest =>
    match ((p.dependencies name).filter fun d => !before.contains d).getLast? with
    | some dependency => some dependency
    | none => misplaced? p (name :: before) rest

/-- A cycle of dependencies, by one name on it. -/
def cycleFault? (p : Plan) : Option Fault :=
  (p.misplaced? [] p.walkOrder).map .cycle

/-- The first fault of a plan. -/
def fault? (p : Plan) : Option Fault :=
  p.nameFault?
    <|> p.emptyFault?
    <|> orderFault? (p.graphs.map (·.snapshot))
    <|> (repeatedName? [] p.operationNames).map .nameUsedTwice
    <|> p.dependenciesFault?
    <|> p.cycleFault?

/-- Accepts a plan without faults as it is. -/
def check (p : Plan) : Except Fault Plan :=
  match p.fault? with
  | some fault => .error fault
  | none => .ok p

end CommitPipeline.Plan
