import CommitPipeline.Event

/-! Events on their way to the subscribers. Only the latest are kept; a subscriber that falls
behind by more is told how many it missed, and goes on with the oldest that is left. -/
namespace CommitPipeline

structure Publisher where
  /-- How many events are kept. -/
  capacity : Nat
  /-- How many events were published. -/
  count : Nat
  /-- The latest events, oldest first. -/
  kept : List Event
  kept_length : kept.length = min capacity count

/-- A subscriber, by the number of events that it was told of or missed. Events from before its
subscription count as told. -/
structure Subscriber where
  position : Nat
  deriving DecidableEq

/-- What a subscriber is told. -/
inductive Notice where
  | event (event : Event)
  /-- So many events are lost for this subscriber. -/
  | missed (count : Nat)
  deriving DecidableEq

/-- How many events a notice accounts for. -/
def Notice.width : Notice → Nat
  | .event _ => 1
  | .missed count => count

namespace Publisher

/-- A publisher that keeps as many events as asked for, rounded up to a power of two. -/
def ofCapacity (capacity : Nat) : Publisher where
  capacity := capacity.nextPowerOfTwo
  count := 0
  kept := []
  kept_length := by simp

/-- A subscriber that is told of the events to come. -/
def subscribe (p : Publisher) : Subscriber := ⟨p.count⟩

/-- Publishes an event and forgets the oldest if it has no room for both. -/
def publish (p : Publisher) (event : Event) : Publisher where
  capacity := p.capacity
  count := p.count + 1
  kept := (p.kept ++ [event]).drop (p.kept.length + 1 - p.capacity)
  kept_length := by
    have := p.kept_length
    simp only [List.length_drop, List.length_append, List.length_cons, List.length_nil]
    omega

/-- Publishes some events in their order. -/
def publishAll (p : Publisher) (events : List Event) : Publisher :=
  events.foldl publish p

/-- The number of events that are not kept any more. -/
def forgotten (p : Publisher) : Nat := p.count - p.kept.length

/-- What a subscriber was not told yet, in the order in which it will be. -/
def waiting (p : Publisher) (s : Subscriber) : List Notice :=
  let events := (p.kept.drop (s.position - p.forgotten)).map .event
  if s.position < p.forgotten then .missed (p.forgotten - s.position) :: events else events

/-- Tells a subscriber the next thing, if there is one. -/
def tell? (p : Publisher) (s : Subscriber) : Option (Notice × Subscriber) :=
  match p.waiting s with
  | [] => none
  | notice :: _ => some (notice, ⟨s.position + notice.width⟩)

/-- Tells a subscriber everything. -/
def tellAll (p : Publisher) (s : Subscriber) : List Notice × Subscriber :=
  (p.waiting s, p.subscribe)

@[simp] theorem count_publish (p : Publisher) (event : Event) :
    (p.publish event).count = p.count + 1 := rfl

theorem position_subscribe (p : Publisher) : p.subscribe.position = p.count := rfl

theorem forgotten_le (p : Publisher) : p.forgotten ≤ p.count := Nat.sub_le _ _

/-- Nobody who has just subscribed waits for anything. -/
@[simp] theorem waiting_subscribe (p : Publisher) : p.waiting p.subscribe = [] := by
  have all : p.kept.length ≤ p.count - p.forgotten := by
    have := p.kept_length
    unfold forgotten
    omega
  rw [waiting, if_neg (by rw [position_subscribe]; exact Nat.not_lt.mpr p.forgotten_le),
    position_subscribe, List.drop_eq_nil_of_le all, List.map_nil]

end Publisher
end CommitPipeline
