import CommitPipeline.Proofs.FittingWrites
import CommitPipeline.Proofs.RestoreLoop

/-! Stores that stay as obliging as they are whatever they are asked. They take every write that
fits, and what they refuse, since it does not fit, harms nothing. So whatever is requested of a
pipeline over such a store, a report on a running operation is never rejected. -/
namespace CommitPipeline

open OperationStore (Obliging Obliges)

namespace OperationStore
variable {σ : Type} [OperationStore σ] {store next : σ} {known : Set OperationId} {write : Write}
  {error : Error}

/-- The store knows some operations and takes every write that fits, now and later, whatever it is
asked in between. -/
def Abides (store : σ) (known : Set OperationId) : Prop :=
  ∃ serves : σ → Set OperationId → Prop, Obliging serves ∧
    (∀ {store known}, serves store known → ∀ write error,
      (perform store write).1 = .error error → serves (perform store write).2 known) ∧
    serves store known

theorem Abides.obliges (abides : Abides store known) : Obliges store known := by
  obtain ⟨serves, obliging, -, serve⟩ := abides
  exact ⟨serves, obliging, serve⟩

theorem Abides.goesOn (abides : Abides store known)
    (performed : perform store write = (.ok (), next)) : Abides next (write.knownAfter known) := by
  obtain ⟨serves, obliging, bears, serve⟩ := abides
  have later := obliging.goesOn serve write (congrArg Prod.fst performed)
  rw [performed] at later
  exact ⟨serves, obliging, bears, later⟩

theorem Abides.refuses (abides : Abides store known)
    (performed : perform store write = (.error error, next)) : Abides next known := by
  obtain ⟨serves, obliging, bears, serve⟩ := abides
  have later := bears serve write error (congrArg Prod.fst performed)
  rw [performed] at later
  exact ⟨serves, obliging, bears, later⟩

/-- Starting an operation is either taken or refused. -/
theorem Abides.started (store : σ) (id : OperationId) (abides : Abides store known) :
    Abides (perform store (.status id .active)).2 known := by
  cases performed : perform store (.status id .active) with
  | mk answer next =>
    cases answer with
    | ok => exact abides.goesOn performed
    | error error => exact abides.refuses performed

end OperationStore

open OperationStore (Abides)

/-- An unlocked memory refuses what does not fit, and stays as it is. -/
theorem Memory.Serves.abides {m : Memory} {known : Set OperationId} (serves : m.Serves known) :
    Abides m known := by
  refine ⟨Memory.Serves, ⟨Memory.Serves.takes, Memory.Serves.goesOn⟩, ?_, serves⟩
  intro m known serves write error refused
  have same : (OperationStore.perform m write).2 = m :=
    Memory.perform_rejected serves.indexed refused
  rwa [same]

namespace Engine
variable {σ : Type} [OperationStore σ] {e : Engine σ} {id : OperationId} {now : Instant}
  {request : Request}

theorem finish_abides (now : Instant) (events : EventSet) (filed : e.core.Filed)
    (abides : Abides e.store {id | e.core.Unfinished id}) :
    Abides (e.finish now events).2.store {id | (e.finish now events).2.core.Unfinished id} := by
  have kept := finish_keeps Abides.started now events abides
  obtain ⟨operations, dispatches, -, finished⟩ := finish_settled now events filed
  rw [finished] at kept ⊢
  simpa only [Core.unfinished_settled filed dispatches] using kept

/-- A write changes nothing but the store. -/
theorem write_after {write : Option Write} {answer : Except Error Unit} {after : Engine σ}
    (wrote : e.write write = (answer, after)) : ∃ store, after = { e with store } := by
  have left : (e.write write).2 = { e with store := (e.write write).2.store } := by
    cases write <;> rfl
  rw [wrote] at left
  exact ⟨_, left⟩

theorem write_refused {write : Option Write} {known : Set OperationId} {error : Error} {store : σ}
    (abides : Abides e.store known) (wrote : e.write write = (.error error, { e with store })) :
    Abides store known := by
  cases write with
  | none => cases congrArg Prod.fst wrote
  | some write =>
    have answered := congrArg Prod.fst wrote
    have left := congrArg (fun written => written.2.store) wrote
    exact abides.refuses (Prod.ext answered left)

/-- An abiding store abides every request. -/
theorem apply_abides (now : Instant) (request : Request) (filed : e.core.Filed)
    (abides : Abides e.store {id | e.core.Unfinished id}) :
    Abides (e.apply now request).2.store {id | (e.apply now request).2.core.Unfinished id} := by
  cases decided : e.core.changeFor now request with
  | error error =>
    rw [apply_error decided]
    exact abides
  | ok found =>
    cases found with
    | none =>
      rw [apply_idle decided]
      exact abides
    | some change =>
      have admitted := Core.admits_of_changeFor decided
      cases wrote : e.write change.write with
      | mk answer after =>
        obtain ⟨store, rfl⟩ := write_after wrote
        cases answer with
        | error error =>
          rw [apply_refused decided wrote]
          exact write_refused abides wrote
        | ok =>
          rw [apply_done decided wrote]
          exact finish_abides now change.events (filed.admitted admitted)
            (knows_written Abides.goesOn abides filed admitted wrote)

/-- A request that leads to a change is not rejected, unless it sets the hold of a final
operation. -/
theorem apply_taken {change : Change} (abides : Abides e.store {id | e.core.Unfinished id})
    (decided : e.core.changeFor now request = .ok (some change))
    (waiting : ∀ id hold, request = .setHold id hold → e.core.Unfinished id) :
    ∃ step, (e.apply now request).1 = .ok step := by
  obtain ⟨store, wrote⟩ :=
    write_taken abides.obliges (Core.admits_of_changeFor decided) waiting
  rw [apply_done decided wrote]
  exact ⟨_, rfl⟩

end Engine
end CommitPipeline
