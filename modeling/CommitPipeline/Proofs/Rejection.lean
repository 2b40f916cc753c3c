import CommitPipeline.Proofs.Durability
import CommitPipeline.Proofs.Moves
import CommitPipeline.Proofs.TakingUp
import CommitPipeline.Worker.Scripted

/-! What a rejected call leaves behind: nothing. A request is decided on before anything is changed,
and its write comes before its change, so whatever is found to be wrong, memory and store are as
they were, nobody is told of anything, and the calls to come go as if the rejected one had never
been made. All this rests on one property of the store: a write that it refuses leaves it as it
is. -/
namespace CommitPipeline

namespace OperationStore
variable {σ : Type} [OperationStore σ]

/-- Every write that the store refuses leaves it as it is. -/
def RefusesCleanly (store : σ) : Prop :=
  ∀ (write : Write) (error : Error), (perform store write).1 = .error error →
    (perform store write).2 = store

/-- What becomes of a store by writes, whoever makes them. -/
inductive Reaches (start : σ) : σ → Prop where
  | refl : Reaches start start
  | write {store : σ} (reaches : Reaches start store) (write : Write) :
      Reaches start (perform store write).2

theorem Reaches.trans {start store later : σ} (first : Reaches start store)
    (second : Reaches store later) : Reaches start later := by
  induction second with
  | refl => exact first
  | write _ write ih => exact ih.write write

end OperationStore

open OperationStore (RefusesCleanly Reaches)

theorem Memory.Indexed.refusesCleanly {m : Memory} (indexed : m.Indexed) : RefusesCleanly m :=
  fun _ _ rejected => Memory.perform_rejected indexed rejected

theorem Memory.Indexed.reached {m later : Memory} (indexed : m.Indexed)
    (reaches : Reaches m later) : later.Indexed := by
  induction reaches with
  | refl => exact indexed
  | write _ write ih => exact ih.perform write

theorem RefusingStore.refusesCleanly {store : RefusingStore} (indexed : store.memory.Indexed) :
    RefusesCleanly store := by
  intro write error rejected
  have passed (failed : (store.pass write).1 = .error error) : (store.pass write).2 = store := by
    have kept : (store.memory.perform write).2 = store.memory :=
      Memory.perform_rejected indexed failed
    simp only [RefusingStore.pass, kept]
  change (store.perform write).1 = _ at rejected
  change (store.perform write).2 = store
  unfold RefusingStore.perform at rejected ⊢
  cases write with
  | status id | statusAndHold id =>
    simp only at rejected ⊢
    split at rejected
    · rename_i refused
      rw [if_pos refused]
    · rename_i allowed
      rw [if_neg allowed]
      exact passed rejected
  | save | hold | delete => exact passed rejected

namespace Engine
variable {σ : Type} [OperationStore σ] {e : Engine σ} {now : Instant} {request : Request}
  {error : Error}

theorem write_rejected (clean : RefusesCleanly e.store) {write : Option Write}
    (rejected : (e.write write).1 = .error error) : (e.write write).2 = e := by
  cases write with
  | none => rfl
  | some write =>
    have kept := clean write error rejected
    simp only [Engine.write, kept]

/-- A rejected request changes neither memory nor store. -/
theorem apply_rejected (clean : RefusesCleanly e.store)
    (rejected : (e.apply now request).1 = .error error) :
    e.apply now request = (.error error, e) := by
  cases decided : e.core.changeFor now request with
  | error found =>
    rw [apply_error decided] at rejected ⊢
    cases rejected
    rfl
  | ok found =>
    cases found with
    | none =>
      rw [apply_idle decided] at rejected
      cases rejected
    | some change =>
      cases wrote : e.write change.write with
      | mk answer after =>
        cases answer with
        | error found =>
          have kept := write_rejected clean (congrArg Prod.fst wrote)
          rw [wrote] at kept
          rw [apply_refused decided wrote] at rejected ⊢
          cases rejected
          exact congrArg (Prod.mk _) kept
        | ok done =>
          rw [apply_done decided wrote] at rejected
          cases rejected

/-- Asking for a pass is never rejected. -/
theorem apply_dispatch_ok (e : Engine σ) (now : Instant) :
    ∃ step, (e.apply now .dispatch).1 = .ok step := ⟨_, rfl⟩

/-! ### A run without its rejected calls -/

theorem start_reaches (e : Engine σ) (ids : List OperationId) (free : Nat) :
    Reaches e.store (e.start ids free).2.store := by
  have wrote {store : σ} {id : OperationId} {next : σ} {answer : Except Error Unit}
      (performed : OperationStore.perform store (.status id .active) = (answer, next))
      (reaches : Reaches e.store store) : Reaches e.store next := by
    have written := reaches.write (.status id .active)
    rwa [performed] at written
  refine e.start_preserves free (fun _ _ _ _ _ performed reaches => wrote performed reaches)
    (fun _ _ _ _ performed reaches => ?_) .refl
  exact ⟨fun _ => wrote performed reaches, fun _ _ => wrote performed reaches⟩

theorem dispatch_reaches (e : Engine σ) (now : Instant) :
    Reaches e.store (e.dispatch now).2.store := by
  rw [dispatch]
  split
  · exact .refl
  · exact e.start_reaches _ _

theorem write_reaches (e : Engine σ) (write : Option Write) :
    Reaches e.store (e.write write).2.store := by
  cases write with
  | none => exact .refl
  | some write => exact Reaches.refl.write write

/-- A call touches the store by writes only. -/
theorem call_reaches (e : Engine σ) (call : Call) : Reaches e.store (e.call call).2.store := by
  cases call with
  | retireMissing batches => exact .refl
  | request now request =>
    change Reaches e.store (e.apply now request).2.store
    cases decided : e.core.changeFor now request with
    | error error =>
      rw [apply_error decided]
      exact .refl
    | ok found =>
      cases found with
      | none =>
        rw [apply_idle decided]
        exact .refl
      | some change =>
        have reached := e.write_reaches change.write
        cases wrote : e.write change.write with
        | mk answer after =>
          rw [wrote] at reached
          cases answer with
          | error error =>
            rw [apply_refused decided wrote]
            exact reached
          | ok done =>
            rw [apply_done decided wrote]
            exact reached.trans (dispatch_reaches ⟨change.core.prune.2, after.store⟩ now)

/-- The calls that are not rejected when all are made in their order. -/
def acceptedCalls (e : Engine σ) : List Call → List Call
  | [] => []
  | call :: rest =>
    match e.call call with
    | (.ok _, next) => call :: next.acceptedCalls rest
    | (.error _, next) => next.acceptedCalls rest

/-- A sequence of calls ends as it would without those that are rejected, and the others get the
same answers. -/
theorem calls_acceptedCalls (calls : List Call)
    (clean : ∀ store, Reaches e.store store → RefusesCleanly store) :
    (e.calls (e.acceptedCalls calls)).2 = (e.calls calls).2 ∧
      (e.calls (e.acceptedCalls calls)).1 = (e.calls calls).1.filter (·.isOk) := by
  induction calls generalizing e with
  | nil => exact ⟨rfl, rfl⟩
  | cons call rest ih =>
    have reached := e.call_reaches call
    rw [acceptedCalls, Engine.calls]
    cases called : e.call call with
    | mk answer next =>
      rw [called] at reached
      cases answer with
      | ok step =>
        obtain ⟨same, answers⟩ := ih fun store later => clean store (reached.trans later)
        simp only [Engine.calls, called]
        exact ⟨same, congrArg (Except.ok step :: ·) answers⟩
      | error error =>
        -- Only a request can be rejected.
        have unchanged : next = e := by
          cases call with
          | retireMissing batches => cases called
          | request now request =>
            have kept := apply_rejected (clean e.store .refl) (congrArg Prod.fst called)
            exact congrArg Prod.snd (called.symm.trans kept)
        obtain ⟨same, answers⟩ := ih clean
        rw [unchanged]
        exact ⟨same, answers⟩

theorem calls_acceptedCalls_of_indexed {e : Engine Memory} (indexed : e.store.Indexed)
    (calls : List Call) :
    (e.calls (e.acceptedCalls calls)).2 = (e.calls calls).2 ∧
      (e.calls (e.acceptedCalls calls)).1 = (e.calls calls).1.filter (·.isOk) :=
  calls_acceptedCalls calls fun _ reached => (indexed.reached reached).refusesCleanly

end Engine

/-! ### Whoever makes the call -/

theorem Delivery.isDone_iff {delivery : Delivery} :
    delivery.isDone = true ↔ delivery = .none := by
  obtain ⟨operations, wake, events⟩ := delivery
  cases operations <;> cases wake <;> cases events <;> simp [isDone, none]

/-- What the dispatcher has to deliver for the worker. -/
def Dispatcher.delivery : Dispatcher → Delivery
  | .serving _ _ delivery => delivery
  | .idle | .ended => .none

namespace Pipeline
variable {σ ω : Type} {p after : Pipeline σ ω} {now : Instant} {request : Request} {error : Error}

/-- The state is the same, and nobody is told anything, at once or later. Operations on their way to
the dispatcher may be lost, since a worker may take a rejection for a reason to break down. -/
structure Unmoved (p after : Pipeline σ ω) : Prop where
  engine : after.engine = p.engine
  deliveries : after.deliveries = p.deliveries
  dispatcher : after.dispatcher.delivery = p.dispatcher.delivery
  timer : after.timer = p.timer
  outbox : after.outbox.Sublist p.outbox
  wakes : after.wakes = p.wakes
  publisher : after.publisher = p.publisher

variable [OperationStore σ]

theorem call_rejected (clean : RefusesCleanly p.engine.store)
    (rejected : (p.engine.apply now request).1 = .error error) :
    p.call now request = (.error error, p) := by
  simp only [call, change, Engine.apply_rejected clean rejected]

/-- A worker whose call is rejected goes on to its next call, or ends the dispatcher. -/
theorem Serves.unmoved {breakdown : Breakdown} {rest : List Request}
    (served : p.Serves now breakdown (request :: rest) after)
    (applied : p.engine.apply now request = (.error error, p.engine))
    (nothing : p.dispatcher.delivery = .none) : p.Unmoved after := by
  cases served with
  | accepted accepted => cases accepted.symm.trans applied
  | rejected answered =>
    cases answered.symm.trans applied
    exact ⟨rfl, rfl, nothing.symm, rfl, .refl _, rfl, rfl⟩
  | givesUp answered =>
    cases answered.symm.trans applied
    exact ⟨rfl, rfl, nothing.symm, rfl, List.nil_sublist _, rfl, rfl⟩

/-- A rejected request says nothing to anybody if it is made by the worker or as a late report. -/
theorem Makes.unmoved [Worker ω] {move : Move} (made : p.Makes now move after)
    (clean : RefusesCleanly p.engine.store)
    (rejected : (p.engine.apply now request).1 = .error error)
    (asked : p.requestOf move = some request) : p.Unmoved after := by
  have applied := Engine.apply_rejected clean rejected
  cases made with
  | deliver | look | wake | timerThrough | timerDelivers => cases asked
  | handOver stands =>
    rw [requestOf, stands] at asked
    cases asked
  | dispatcherDelivers stands left => simp [requestOf, stands, left] at asked
  | serve stands done served =>
    simp only [requestOf, stands, done, ↓reduceIte] at asked
    obtain ⟨rest, rfl⟩ := List.head?_eq_some_iff.mp asked
    refine served.unmoved applied ?_
    rw [stands]
    exact Delivery.isDone_iff.mp done
  | expire | expireRejected =>
    cases asked
    obtain ⟨step, accepted⟩ := p.engine.apply_dispatch_ok now
    cases accepted.symm.trans rejected
  | report found _ called =>
    rw [requestOf, found] at asked
    cases asked
    cases called with
    | accepted accepted => cases accepted.symm.trans applied
    | rejected answered =>
      cases answered.symm.trans applied
      exact ⟨rfl, rfl, rfl, rfl, .refl _, rfl, rfl⟩

end Pipeline

/-- Wherever it is rejected, by the pipeline or by a store that leaves no half of a write, a request
changes nothing in memory or in the store. Made through a handle, by a caller, by the worker or as a
late report, it sends nothing to anybody. -/
theorem rejected_unchanged {σ ω : Type} [OperationStore σ] [Worker ω] {e : Engine σ}
    {now : Instant} {request : Request} {error : Error} (clean : RefusesCleanly e.store)
    (rejected : (e.apply now request).1 = .error error) :
    (e.apply now request).2 = e ∧
      ∀ p : Pipeline σ ω, p.engine = e →
        p.call now request = (.error error, p) ∧
        ∀ (move : Move) (after : Pipeline σ ω), p.requestOf move = some request →
          p.move? now move = some after → p.Unmoved after := by
  refine ⟨congrArg Prod.snd (Engine.apply_rejected clean rejected), ?_⟩
  rintro p rfl
  exact ⟨Pipeline.call_rejected clean rejected,
    fun _ _ asked made => (Pipeline.makes_of_move? made).unmoved clean rejected asked⟩

/-- Two operations of one commit, of which the second is skipped and stays live with its graph. -/
def secondSkipped : List Call := [
  .request .first (.skip (.ofNat 2)),
  .request .first (.append 1 [.new (.ofNat 1), .new (.ofNat 2)] [])]

/-- The hold of the skipped operation passes all checks of the pipeline, but has no record any more
that it could be written to. -/
theorem unwritable_hold_unchanged :
    let e := (runOf (.new "uploads" []) .commitGraph Memory.empty secondSkipped).2
    let request := Request.setHold (.ofNat 2) (some .first)
    RefusesCleanly e.store ∧
      (e.apply .first request).1 = .error (.unknownOperation (.ofNat 2)) ∧
      (e.apply .first request).2 = e ∧
      ∀ p : Pipeline Memory ScriptedWorker, p.engine = e →
        p.call .first request = (.error (.unknownOperation (.ofNat 2)), p) ∧
        ∀ (move : Move) (after : Pipeline Memory ScriptedWorker), p.requestOf move = some request →
          p.move? .first move = some after → p.Unmoved after := by
  intro e request
  have run := SoleRun.of_calls (.new "uploads" []) .commitGraph Memory.empty secondSkipped
  have clean : RefusesCleanly e.store := (run.mirrored Memory.indexed_empty).indexed.refusesCleanly
  have answered : (e.apply .first request).1.map (fun _ => ()) =
      .error (.unknownOperation (.ofNat 2)) := by decide +kernel
  have rejected : (e.apply .first request).1 = .error (.unknownOperation (.ofNat 2)) := by
    cases found : (e.apply .first request).1 with
    | error error =>
      rw [found] at answered
      cases answered
      rfl
    | ok step =>
      rw [found] at answered
      cases answered
  exact ⟨clean, rejected, rejected_unchanged clean rejected⟩

end CommitPipeline
