import CommitPipeline.Proofs.Announcements
import CommitPipeline.Proofs.FittingWrites
import CommitPipeline.Proofs.SlotFilling
import CommitPipeline.Proofs.TakingUp

/-! One pass is enough. Starting an operation makes no other one ready, and drained graphs have left
the queue before the pass; so over a store that takes what fits, every call that asks for something
ends at rest: the pipeline is suspended, or has no free slot, or has nothing ready. At rest a
further pass does nothing at all. -/
namespace CommitPipeline

open OperationStore (Accepts Obliges)

namespace Core
variable {c : Core} {id : OperationId} {op : Operation} {now : Instant}
  {operations : List Operation}

/-- There is nothing to be started: the pipeline is suspended, or all slots are taken, or nothing is
ready. -/
def AtRest (c : Core) (now : Instant) : Prop :=
  c.isSuspended = true ∨ c.limit ≤ c.active.size ∨ c.ready now = []

/-! ### What is ready after a pass -/

theorem readiness_startAll (c : Core) (operations : List Operation) :
    (c.startAll operations).readiness =
      { c.readiness with table := (c.startAll operations).table } := by
  rw [startAll_eq]
  rfl

/-- An operation that is started holds others up as it did while it was pending. -/
theorem isUnmet_startAll (filed : c.Filed) (dispatches : c.Dispatches now operations)
    (op : Operation) (dependency : OperationId) :
    (c.startAll operations).readiness.isUnmet op dependency =
      c.readiness.isUnmet op dependency := by
  rw [readiness_startAll]
  by_cases started : dependency ∈ operations.map (·.id)
  · obtain ⟨one, listed, rfl⟩ := List.mem_map.mp started
    obtain ⟨-, -, -, waiting, held, isReady, handedOut⟩ := dispatches.ready listed
    have before : c.readiness.table[one.id]? = some waiting := held
    have pending := (Readiness.isReady_iff.mp isReady).1
    have running := lookup_started dispatches filed listed
    rw [handedOut] at running before
    simp only [handedOut, Readiness.isUnmet, before, running, pending, Status.isFinal]
  · have same : (c.startAll operations).table[dependency]? = c.readiness.table[dependency]? :=
      lookup_not_started started
    simp only [Readiness.isUnmet, same]

/-- What is ready after a pass was ready before it, and has not been started. -/
theorem ready_of_startAll (filed : c.Filed) (dispatches : c.Dispatches now operations)
    (ready : id ∈ (c.startAll operations).ready now) :
    id ∈ c.ready now ∧ id ∉ operations.map (·.id) := by
  obtain ⟨graph, candidate, member, op, held, isReady⟩ := Readiness.mem_ready.mp ready
  obtain ⟨pending, inGraph, free, met⟩ := Readiness.isReady_iff.mp isReady
  simp only [isUnmet_startAll filed dispatches] at met
  rcases startAll_origin filed dispatches held with ⟨-, _, -, -, rfl⟩ | ⟨notStarted, before⟩
  · cases pending
  · rw [readiness_startAll] at candidate inGraph
    exact ⟨Readiness.mem_ready.mpr ⟨graph, candidate, member, op, before,
      Readiness.isReady_iff.mpr ⟨pending, inGraph, free, met⟩⟩, notStarted⟩

/-- A pass that starts the first of what is ready, as far as the slots go, leaves nothing to be
started. -/
theorem atRest_settled (filed : c.Filed) (tracked : c.Tracked)
    (dispatches : c.prune.2.Dispatches now operations)
    (first : operations.map (·.id) = (c.prune.2.ready now).take c.prune.2.freeSlots) :
    (c.settled operations).AtRest now := by
  by_cases suspended : (c.settled operations).isSuspended = true
  · exact .inl suspended
  refine .inr (or_iff_not_imp_right.mpr fun some => ?_)
  obtain ⟨id, ready⟩ := List.exists_mem_of_ne_nil _ some
  obtain ⟨before, notStarted⟩ := ready_of_startAll filed.prune dispatches ready
  have more : c.prune.2.freeSlots < (c.prune.2.ready now).length := by
    by_contra enough
    rw [first, List.take_of_length_le (Nat.not_lt.mp enough)] at notStarted
    exact notStarted before
  have all : operations.length = c.prune.2.freeSlots := by
    rw [← List.length_map (·.id), first, List.length_take, Nat.min_eq_left (Nat.le_of_lt more)]
  have slots : c.prune.2.freeSlots = c.limit - c.active.size := by
    rw [isSuspended, settled_suspendCount] at suspended
    rw [freeSlots, isSuspended, pruned_suspendCount, if_neg suspended, pruned_limit, pruned_active]
  rw [settled_limit, active_size_settled tracked filed dispatches]
  omega

/-! ### At rest -/

theorem noteActivity_of_noted (noted : c.Noted) : c.noteActivity = (false, c) := by
  rw [noteActivity, ← show c.wasActive = c.isActive from noted, bne_self_eq_false]

end Core

namespace Engine
variable {σ : Type} [OperationStore σ] {e : Engine σ} {now : Instant}

/-- At rest a pass starts nothing and writes nothing. -/
theorem dispatch_atRest (atRest : e.core.AtRest now) : e.dispatch now = ([], e) := by
  rw [dispatch]
  split
  · rfl
  · rename_i noneFree
    rcases atRest with suspended | full | nothing
    · exact (noneFree (if_pos suspended)).elim
    · refine (noneFree ?_).elim
      rw [Core.freeSlots, Nat.sub_eq_zero_of_le full, ite_self]
    · rw [nothing, start]

/-- At rest, with no drained graph in the queue and its activity told, a pipeline answers the call
for a pass with nothing and stays as it is. -/
theorem apply_dispatch_atRest (busy : e.core.Busy) (noted : e.core.Noted)
    (atRest : e.core.AtRest now) : e.apply now .dispatch = (.ok .empty, e) := by
  have finished : e.finish now .none = (.empty, e) := by
    simp only [finish, Core.prune_eq_of_busy busy, dispatch_atRest atRest,
      Core.noteActivity_of_noted noted]
    rfl
  have decided : e.core.changeFor now .dispatch = .ok (some ⟨none, e.core, .none⟩) := rfl
  rw [apply_done decided rfl, finished]

end Engine

section Run
variable {σ : Type} [OperationStore σ] {names : Names} {algorithm : Algorithm}
  {history : List Entry} {e after : Engine σ} {now : Instant} {request : Request} {step : Step}

/-- Whatever is accepted and asks for something leaves the pipeline at rest. -/
theorem Run.atRest (run : Run names algorithm history e)
    (obliges : Obliges e.store {id | e.core.Unfinished id})
    (applied : e.apply now request = (.ok step, after)) (asks : ¬ e.core.AsksForNothing request) :
    after.core.AtRest now := by
  obtain ⟨change, store, later, carried⟩ := Engine.CarriesOut.of_accepted
    (mt Core.changeFor_eq_none_iff.mp asks) (congrArg Prod.fst applied)
  obtain rfl : later = after := congrArg Prod.snd (carried.ended.symm.trans applied)
  have admitted := Core.admits_of_changeFor carried.decided
  have filed := run.sound.filed.admitted admitted
  have tracked := run.sound.tracked.admitted run.sound.filed admitted
  have accepts : Accepts store {id | change.core.Unfinished id} :=
    (Engine.obliges_written obliges run.sound.filed admitted carried.wrote).accepts
  obtain ⟨dispatches, passed, rfl⟩ := carried.passed filed
  have first := (Engine.pass_accepted (e := ⟨change.core, store⟩) now filed accepts).1
  exact Core.atRest_settled filed tracked dispatches (passed ▸ first)

/-- What follows such a request, any number of passes, does nothing. -/
theorem Run.stays (run : Run names algorithm history e)
    (obliges : Obliges e.store {id | e.core.Unfinished id})
    (applied : e.apply now request = (.ok step, after)) (asks : ¬ e.core.AsksForNothing request)
    (count : Nat) : after.calls (List.replicate count (.request now .dispatch)) =
      (List.replicate count (.ok .empty), after) := by
  have next := run.applied applied
  have again := Engine.apply_dispatch_atRest next.sound.busy next.noted
    (run.atRest obliges applied asks)
  induction count with
  | zero => rfl
  | succ count ih =>
    simp only [List.replicate_succ, Engine.calls, Engine.call, again, ih]

/-- Over a store that takes what fits, every accepted request that asks for something leaves nothing
to be started. A pass right after it starts nothing, tells of nothing and changes nothing, however
often it is called for; so calling for it often is calling for it once. -/
theorem work_conserved (run : Run names algorithm history e)
    (obliges : Obliges e.store {id | e.core.Unfinished id})
    (applied : e.apply now request = (.ok step, after)) (asks : ¬ e.core.AsksForNothing request) :
    (after.core.isSuspended = true ∨ after.core.limit ≤ after.core.active.size ∨
      after.core.ready now = []) ∧
    (∀ count, after.calls (List.replicate count (.request now .dispatch)) =
      (List.replicate count (.ok .empty), after)) ∧
    ∀ count, (e.calls (List.replicate (count + 1) (.request now .dispatch))).2 =
      (e.apply now .dispatch).2 := by
  refine ⟨run.atRest obliges applied asks, run.stays obliges applied asks, fun count => ?_⟩
  cases passed : e.apply now .dispatch with
  | mk answer once =>
    cases answer with
    | error error => cases passed
    | ok step =>
      have still := run.stays obliges passed id count
      simp only [List.replicate_succ, Engine.calls, Engine.call, passed, still]

/-- Four slots and two commits, the second of four operations of which the last waits for the
first. The latest call is first. -/
def fiveInTwoCommits : List Call := [
  .request .first (.append 2
    [.new (.ofNat 2), .new (.ofNat 3), .new (.ofNat 4), .new (.ofNat 5)]
    [⟨.ofNat 5, .ofNat 2⟩]),
  .request .first (.append 1 [.new (.ofNat 1)] []),
  .request .first (.setLimit 4)]

/-- The completion of the first commit starts all of the second but what waits, in one pass: a slot
is left, and nothing is ready. -/
theorem second_commit_at_rest :
    let e := (runOf (.new "uploads" []) .commitGraph Memory.empty fiveInTwoCommits).2
    let after := (e.apply .first (.complete (.ofNat 1))).2
    Obliges e.store {id | e.core.Unfinished id} ∧
      ¬ e.core.AsksForNothing (.complete (.ofNat 1)) ∧
      after.core.active.size = 3 ∧ after.core.limit = 4 ∧ after.core.ready .first = [] ∧
      after.calls [.request .first .dispatch, .request .first .dispatch] =
        ([.ok .empty, .ok .empty], after) := by
  intro e after
  have sole : SoleRun (.new "uploads" []) .commitGraph Memory.empty _ e :=
    .of_calls _ _ _ fiveInTwoCommits
  have obliges : Obliges e.store {id | e.core.Unfinished id} :=
    ((sole.mirrored Memory.indexed_empty).serves sole.run.sound.filed (by decide +kernel)).obliges
  have size : after.core.active.size = 3 := by decide +kernel
  have limit : after.core.limit = 4 := by decide +kernel
  have unsuspended : after.core.isSuspended = false := by decide +kernel
  have asks : ¬ e.core.AsksForNothing (.complete (.ofNat 1)) := False.elim
  obtain ⟨step, accepted⟩ : ∃ step, (e.apply .first (.complete (.ofNat 1))).1 = .ok step :=
    except_isOk.mp (by decide +kernel)
  have applied : e.apply .first (.complete (.ofNat 1)) = (.ok step, after) := Prod.ext accepted rfl
  clear_value after e
  obtain ⟨rest, still, -⟩ := work_conserved sole.run obliges applied asks
  refine ⟨obliges, asks, size, limit, ?_, still 2⟩
  rcases rest with suspended | full | nothing
  · cases unsuspended.symm.trans suspended
  · omega
  · exact nothing

end Run
end CommitPipeline
