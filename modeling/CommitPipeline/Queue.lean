import Std.Data.ExtTreeMap
import CommitPipeline.Error

/-! The queue of graphs, oldest commit first. The place of a graph shifts when an earlier one
goes; its snapshot is what identifies it for good. -/
namespace CommitPipeline

/-- The operations of one commit, in the order in which the commit lists them. -/
structure Graph where
  snapshot : Nat
  members : List OperationId
  deriving DecidableEq

/-- The queued graphs, the place of each snapshot among them, and the highest snapshot ever
accepted, which may belong to a commit without operations or to a graph long gone. -/
structure Queue where
  graphs : List Graph
  places : Std.ExtTreeMap Nat Nat
  latest : Option Nat

namespace Queue

def empty : Queue := ⟨[], ∅, none⟩

/-- Snapshots are accepted in ascending order only. -/
def check (q : Queue) (snapshot : Nat) : Except Error Unit :=
  match q.latest with
  | some latest => if snapshot ≤ latest then .error (.orderingViolation snapshot latest) else .ok ()
  | none => .ok ()

/-- Accepts the snapshot of a commit and queues its graph, unless the commit is empty. -/
def push (q : Queue) (graph : Graph) : Except Error Queue := do
  q.check graph.snapshot
  if graph.members.isEmpty then
    return { q with latest := some graph.snapshot }
  else
    return {
      graphs := q.graphs ++ [graph]
      places := q.places.insert graph.snapshot q.graphs.length
      latest := some graph.snapshot }

/-- The place of each snapshot in a list of graphs. -/
def placesOf (graphs : List Graph) : Std.ExtTreeMap Nat Nat :=
  graphs.zipIdx.foldl (fun places (graph, place) => places.insert graph.snapshot place) ∅

/-- Takes the drained graphs out and returns them, oldest first. The places are computed anew
only if a graph goes. -/
def prune (q : Queue) (drained : Graph → Bool) : List Graph × Queue :=
  let (gone, kept) := q.graphs.partition drained
  if gone.isEmpty then (gone, { q with graphs := kept })
  else (gone, { q with graphs := kept, places := placesOf kept })

/-- The oldest queued graph. -/
def oldest? (q : Queue) : Option Graph := q.graphs.head?

/-- The place of the graph of a snapshot. -/
def index? (q : Queue) (snapshot : Nat) : Option Nat := q.places[snapshot]?

/-- The snapshot of the graph at a place. -/
def snapshotAt? (q : Queue) (place : Nat) : Option Nat := q.graphs[place]?.map (·.snapshot)

theorem check_eq_ok_iff {q : Queue} {snapshot : Nat} :
    q.check snapshot = .ok () ↔ ∀ latest, q.latest = some latest → latest < snapshot := by
  unfold check
  cases h : q.latest with
  | none => simp
  | some latest =>
    by_cases low : snapshot ≤ latest
    · simp [low]
    · simp only [low, if_false, Option.some.injEq, true_iff]
      omega

theorem prune_gone (q : Queue) (drained : Graph → Bool) :
    (q.prune drained).1 = q.graphs.filter drained := by
  simp only [prune, List.partition_eq_filter_filter]
  split <;> rfl

theorem prune_graphs (q : Queue) (drained : Graph → Bool) :
    (q.prune drained).2.graphs = q.graphs.filter fun g => !drained g := by
  simp only [prune, List.partition_eq_filter_filter]
  split <;> rfl

theorem prune_latest (q : Queue) (drained : Graph → Bool) :
    (q.prune drained).2.latest = q.latest := by
  simp only [prune]
  split <;> rfl

end Queue
end CommitPipeline
