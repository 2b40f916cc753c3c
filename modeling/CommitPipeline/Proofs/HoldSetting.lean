import CommitPipeline.Proofs.Draining
import CommitPipeline.Proofs.Durability
import CommitPipeline.Proofs.FittingWrites
import CommitPipeline.Proofs.Lifecycle

/-! Setting the hold of a live operation. While the operation is pending or active its record takes
the hold, and the pass that follows may start the operation, but leaves the hold as it was set. A
final operation has lost its record: its hold stays as it is, and another one is refused as if the
operation were unknown, although it is live until its graph goes. -/
namespace CommitPipeline

/-- A live operation has a hold, and its status is what it was, unless it was pending and has been
started, once. -/
def Core.HasSet (c : Core) (id : OperationId) (hold : Option Instant) (status : Status)
    (started : List Operation) : Prop :=
  c.holdOf id = .ok hold ∧
    (c.statusOf id = .ok status ∨
      status = .pending ∧ c.statusOf id = .ok .active ∧ (started.map (·.id)).count id = 1)

namespace Core
variable {c : Core} {start m : Memory} {id : OperationId} {op : Operation} {now : Instant}
  {hold : Option Instant} {operations : List Operation}

theorem changeFor_setHold (held : c.table[id]? = some op) :
    c.changeFor now (.setHold id hold) = .ok (if op.hold = hold then none else some
      { write := some (.hold id hold)
        core := { c with table := c.table.modify id ({ · with hold }) }
        events := .queue }) := by
  have found : c.holdOf id = .ok op.hold := holdOf_ok.mpr ⟨op, held, rfl⟩
  rw [changeFor, setHoldChange, found]
  split <;> simp_all [bind, Except.bind, pure, Except.pure]

/-- What a pass does to an operation that is not final leaves its hold alone. -/
theorem hasSet_settled (filed : c.Filed) (dispatches : c.prune.2.Dispatches now operations)
    (held : c.table[id]? = some op) (unfinished : op.status.isFinal = false) :
    (c.settled operations).HasSet id op.hold op.status operations := by
  rcases settled_cases filed dispatches held with ⟨graph, -, drained, member⟩ |
    ⟨-, kept⟩ | ⟨pending, once, started⟩
  · have final := isDrained_iff.mp drained id member op held
    cases unfinished.symm.trans final
  · exact ⟨holdOf_ok.mpr ⟨op, kept, rfl⟩, .inl (statusOf_ok.mpr ⟨op, kept, rfl⟩)⟩
  · exact ⟨holdOf_ok.mpr ⟨_, started, rfl⟩,
      .inr ⟨pending, statusOf_ok.mpr ⟨_, started, rfl⟩, once⟩⟩

/-- A memory refuses to change a final operation: it has no record of it. -/
theorem Mirrored.hold_refused (mirrored : c.Mirrored start m) (filed : c.Filed)
    (unlocked : m.readOnly = false) (held : c.table[id]? = some op)
    (final : op.status.isFinal = true) :
    m.perform (.hold id hold) = (.error (.unknownOperation id), m) := by
  rw [Memory.perform_unlocked unlocked]
  refine Memory.update_unknown (Option.not_isSome_iff_eq_none.mp fun known => ?_)
  have unfinished := mirrored.unfinished_of_known filed held
    (Std.ExtTreeMap.mem_iff_isSome_getElem?.mpr known)
  cases unfinished.symm.trans final

end Core

/-- The end of a call sets no hold, and starts at most what was pending. -/
theorem Engine.finish_hasSet {σ : Type} [OperationStore σ] {e : Engine σ} {id : OperationId}
    {op : Operation} (now : Instant) (events : EventSet) (filed : e.core.Filed)
    (held : e.core.table[id]? = some op) (unfinished : op.status.isFinal = false) :
    (e.finish now events).2.core.HasSet id op.hold op.status
      (e.finish now events).1.dispatched := by
  obtain ⟨operations, dispatches, started, finished⟩ := finish_settled now events filed
  have listed : (e.finish now events).1.dispatched = operations := started
  rw [listed, finished]
  exact Core.hasSet_settled filed dispatches held unfinished

section Run
variable {names : Names} {algorithm : Algorithm} {start : Memory} {history : List Entry}
  {e : Engine Memory}

/-- In every run over a memory that nobody else writes to, and that is not locked, the hold of a live
operation can be set to whatever it is already, and to anything while the operation is not final. It
cannot be set to anything else once the operation is final: then nothing is changed. -/
theorem hold_set_until_final (reachable : start.Reachable)
    (run : SoleRun names algorithm start history e) (unlocked : e.store.readOnly = false)
    (now : Instant) {id : OperationId} {status : Status} {current : Option Instant}
    (live : e.core.statusOf id = .ok status) (kept : e.core.holdOf id = .ok current)
    (hold : Option Instant) :
    (status.isFinal = false ∨ current = hold → ∃ step after,
      e.apply now (.setHold id hold) = (.ok step, after) ∧
        after.core.HasSet id hold status step.dispatched) ∧
    (status.isFinal = true ∧ current ≠ hold →
      e.apply now (.setHold id hold) = (.error (.unknownOperation id), e)) := by
  obtain ⟨op, held, rfl⟩ := Core.statusOf_ok.mp live
  obtain ⟨again, found, rfl⟩ := Core.holdOf_ok.mp kept
  cases held.symm.trans found
  have filed := run.run.sound.filed
  have mirrored := run.mirrored reachable.indexed
  have decided : e.core.changeFor now (.setHold id hold) = _ := Core.changeFor_setHold held
  by_cases same : op.hold = hold
  · rw [if_pos same] at decided
    refine ⟨fun _ => ⟨_, _, Engine.apply_idle decided, same ▸ kept, .inl live⟩, ?_⟩
    exact fun ⟨_, differs⟩ => (differs same).elim
  rw [if_neg same] at decided
  constructor
  · intro possible
    have unfinished : op.status.isFinal = false := possible.resolve_right same
    have known : ∀ other value, Request.setHold id hold = .setHold other value →
        e.core.Unfinished other := by
      rintro _ _ ⟨⟩
      exact ⟨op, held, unfinished⟩
    have admitted := Core.admits_of_changeFor decided
    obtain ⟨store, wrote⟩ := Engine.write_taken (mirrored.serves filed unlocked).obliges
      admitted known
    have edited : (e.core.table.modify id ({ · with hold }))[id]? = some { op with hold } := by
      rw [lookup_modify, if_pos rfl, held]
      rfl
    have still : ({ op with hold } : Operation).status.isFinal = false := unfinished
    exact ⟨_, _, Engine.apply_done decided wrote,
      Engine.finish_hasSet now .queue (filed.admitted admitted) edited still⟩
  · rintro ⟨final, -⟩
    have refused : e.store.perform (.hold id hold) = (.error (.unknownOperation id), e.store) :=
      mirrored.hold_refused filed unlocked held final
    have wrote : e.write (some (.hold id hold)) = (.error (.unknownOperation id), e) := by
      simp only [Engine.write, OperationStore.perform, refused]
    exact Engine.apply_refused decided wrote

/-- A commit of three operations. The first is completed and stays live with its graph, the second
runs, and the third waits for the second. The latest call is first. -/
def firstOfThreeCompleted : List Call := [
  .request .first (.complete (.ofNat 1)),
  .request .first
    (.append 1 [.new (.ofNat 1), .new (.ofNat 2), .new (.ofNat 3)] [⟨.ofNat 3, .ofNat 2⟩])]

/-- The hold of an operation can be set while it runs or waits, but no longer once it is final. -/
theorem completed_keeps_hold :
    let e := (runOf (.new "uploads" []) .commitGraph Memory.empty firstOfThreeCompleted).2
    let set (id : Nat) := e.apply .first (.setHold (.ofNat id) (some .first))
    Memory.empty.Reachable ∧ e.store.readOnly = false ∧
      e.core.statusOf (.ofNat 1) = .ok .completed ∧ e.core.holdOf (.ofNat 1) = .ok none ∧
      set 1 = (.error (.unknownOperation (.ofNat 1)), e) ∧
      (∃ step after, set 2 = (.ok step, after) ∧
        after.core.HasSet (.ofNat 2) (some .first) .active step.dispatched) ∧
      ∃ step after, set 3 = (.ok step, after) ∧
        after.core.HasSet (.ofNat 3) (some .first) .pending step.dispatched := by
  intro e set
  have run : SoleRun (.new "uploads" []) .commitGraph Memory.empty _ e :=
    .of_calls _ _ _ firstOfThreeCompleted
  have unlocked : e.store.readOnly = false := by decide +kernel
  have completed : e.core.statusOf (.ofNat 1) = .ok .completed := by decide +kernel
  have free : e.core.holdOf (.ofNat 1) = .ok none := by decide +kernel
  have running : e.core.statusOf (.ofNat 2) = .ok .active := by decide +kernel
  have runningFree : e.core.holdOf (.ofNat 2) = .ok none := by decide +kernel
  have waiting : e.core.statusOf (.ofNat 3) = .ok .pending := by decide +kernel
  have waitingFree : e.core.holdOf (.ofNat 3) = .ok none := by decide +kernel
  exact ⟨.empty, unlocked, completed, free,
    (hold_set_until_final .empty run unlocked .first completed free (some .first)).2 (by decide),
    (hold_set_until_final .empty run unlocked .first running runningFree (some .first)).1
      (.inl rfl),
    (hold_set_until_final .empty run unlocked .first waiting waitingFree (some .first)).1
      (.inl rfl)⟩

/-- Not every live operation takes a hold: this one is completed, its graph is still queued, and it
is refused as unknown. -/
theorem live_operation_refuses_hold :
    let e := (runOf (.new "uploads" []) .commitGraph Memory.empty firstOfThreeCompleted).2
    e.store.readOnly = false ∧ e.core.statusOf (.ofNat 1) = .ok .completed ∧
      ¬ ∃ step after, e.apply .first (.setHold (.ofNat 1) (some .first)) = (.ok step, after) := by
  intro e
  have refused : (e.apply .first (.setHold (.ofNat 1) (some .first))).1.map (fun _ => ()) =
      .error (.unknownOperation (.ofNat 1)) := by decide +kernel
  refine ⟨by decide +kernel, by decide +kernel, ?_⟩
  rintro ⟨step, after, answered⟩
  rw [answered] at refused
  cases refused

end Run
end CommitPipeline
