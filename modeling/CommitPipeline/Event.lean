/-! What a pipeline tells its subscribers. Events carry no data: they mean that something has
changed and is to be asked for again. -/
namespace CommitPipeline

inductive Event where
  /-- Operations were added, removed or changed. -/
  | queueChanged
  /-- The suspend count changed. -/
  | suspendCountChanged
  /-- The pipeline became active or inactive. -/
  | activeStatusChanged
  deriving DecidableEq

/-- The events of one call, each at most once. -/
structure EventSet where
  queueChanged : Bool
  suspendCountChanged : Bool
  activeStatusChanged : Bool
  deriving DecidableEq

namespace EventSet

def none : EventSet := ⟨false, false, false⟩

def queue : EventSet := { none with queueChanged := true }

def suspendCount : EventSet := { none with suspendCountChanged := true }

def contains (events : EventSet) : Event → Bool
  | .queueChanged => events.queueChanged
  | .suspendCountChanged => events.suspendCountChanged
  | .activeStatusChanged => events.activeStatusChanged

/-- The events in the order in which they are published. -/
def toList (events : EventSet) : List Event :=
  [.queueChanged, .suspendCountChanged, .activeStatusChanged].filter events.contains

def isEmpty (events : EventSet) : Bool :=
  !(events.queueChanged || events.suspendCountChanged || events.activeStatusChanged)

theorem mem_toList {events : EventSet} {e : Event} :
    e ∈ events.toList ↔ events.contains e = true := by
  cases e <;> simp [toList]

theorem isEmpty_iff {events : EventSet} : events.isEmpty = true ↔ events = none := by
  obtain ⟨q, s, a⟩ := events
  cases q <;> cases s <;> cases a <;> simp [isEmpty, none]

end EventSet
end CommitPipeline
