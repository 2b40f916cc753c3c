import CommitPipeline.Proofs.ClockSums
import CommitPipeline.Proofs.Eligibility
import CommitPipeline.Proofs.HoldSetting
import CommitPipeline.Proofs.SlotFilling

/-! Operations that are given back to be tried again after a delay. The hold is the instant that the
delay leads to, in memory and in the store; before it no call starts the operation, and from then on
the hold no longer matters, whatever else is called in the meantime. -/
namespace CommitPipeline
open MemoryBacked (memory memory_of_refused perform_of_accepted)

/-! ### The hold in the store -/

/-- A memory has a record of an operation with a hold. -/
def Memory.NotesHold (m : Memory) (id : OperationId) (hold : Instant) : Prop :=
  ∃ record, m.get? id = some record ∧ record.hold = some hold

namespace Memory
variable {m next : Memory} {id : OperationId} {hold : Instant} {status : Status}

theorem notesHold_of_accepted (indexed : m.Indexed)
    (accepted : m.perform (.statusAndHold id status (some hold)) = (.ok (), next)) :
    next.NotesHold id hold := by
  have updated : m.update id ({ · with status, hold := some hold }) = (.ok (), next) :=
    perform_accepted accepted
  cases known : m.snapshotOf[id]? with
  | none =>
    rw [update_unknown known] at updated
    cases updated
  | some snapshot =>
    obtain ⟨record, found⟩ := Option.isSome_iff_exists.mp (indexed.isSome_get? known)
    have same : (m.update id ({ · with status, hold := some hold })).2 = next :=
      congrArg Prod.snd updated
    refine ⟨{ record with status, hold := some hold }, ?_, rfl⟩
    rw [← same, get?_update indexed fun op =>
      (rfl : { op with status, hold := some hold }.id = op.id), if_pos rfl, found]
    rfl

/-- Setting the status of a record leaves all holds. -/
theorem NotesHold.update (notes : m.NotesHold id hold) (indexed : m.Indexed)
    (other : OperationId) : (m.update other ({ · with status })).2.NotesHold id hold := by
  obtain ⟨record, found, held⟩ := notes
  have lookup : (m.update other ({ · with status })).2.get? id = _ := get?_update indexed
    fun op => (rfl : { op with status }.id = op.id)
  by_cases same : other = id
  · rw [if_pos same, found] at lookup
    exact ⟨{ record with status }, lookup, held⟩
  · rw [if_neg same, found] at lookup
    exact ⟨record, lookup, held⟩

end Memory

namespace Engine
variable {σ : Type} [OperationStore σ] [MemoryBacked σ] {id : OperationId} {hold : Instant}

/-- A pass leaves all holds in the store. -/
theorem dispatch_notesHold (e : Engine σ) (now : Instant) (indexed : (memory e.store).Indexed)
    (notes : (memory e.store).NotesHold id hold) :
    (memory (e.dispatch now).2.store).NotesHold id hold := by
  rw [dispatch]
  split
  · exact notes
  · refine (e.start_preserves (P := fun e => (memory e.store).Indexed ∧
      (memory e.store).NotesHold id hold) _ ?refused ?accepted ⟨indexed, notes⟩).2
    case refused =>
      rintro e error store other - performed ⟨indexed, notes⟩
      have same : memory store = memory e.store := memory_of_refused indexed performed
      rw [same]
      exact ⟨indexed, notes⟩
    case accepted =>
      rintro e store other - performed ⟨indexed, notes⟩
      have updated : (memory e.store).update other ({ · with status := .active }) =
          (.ok (), memory store) := Memory.perform_accepted (perform_of_accepted performed)
      have same : ((memory e.store).update other ({ · with status := .active })).2 =
          memory store := congrArg Prod.snd updated
      have noted : (memory store).Indexed ∧ (memory store).NotesHold id hold := by
        rw [← same]
        exact ⟨indexed.update fun op => (rfl : { op with status := .active }.id = op.id),
          notes.update indexed other⟩
      exact ⟨fun _ => noted, fun _ _ => noted⟩

end Engine

/-! ### The hold while the operation is live -/

namespace Core
variable {c after : Core} {id : OperationId} {op : Operation} {now t hold : Instant}
  {request : Request} {change : Change} {operations : List Operation}
  {answer : Except Error Step}

/-- An operation has a hold, if it is live. -/
def HeldUntil (c : Core) (id : OperationId) (hold : Instant) : Prop :=
  ∀ op, c.table[id]? = some op → op.hold = some hold

theorem HeldUntil.settle (lasts : c.HeldUntil id hold) (filed : c.Filed)
    (dispatches : c.prune.2.Dispatches now operations) :
    (c.settled operations).HeldUntil id hold := by
  intro op held
  rcases startAll_origin filed.prune dispatches held with ⟨-, waiting, found, -, rfl⟩ | ⟨-, found⟩
  · exact lasts waiting (held_of_pruned found)
  · exact lasts op (held_of_pruned found)

/-- What is given back with a delay is held until the instant that the delay leads to, and is to be
noted so. -/
theorem Admits.resets {delay : Delay} (admitted : c.Admits now (.reset id (some delay)) change) :
    change.write = some (.statusAndHold id .pending (some (now.after delay))) ∧
      ∃ op, change.core.table[id]? = some op ∧ op.status = .pending ∧
        op.hold = some (now.after delay) := by
  cases admitted with
  | @reset _ op _ held running =>
    refine ⟨rfl, { op with status := .pending, hold := some (now.after delay) }, ?_, rfl, rfl⟩
    simp [held]

/-- A request that does not set the hold of a live operation leaves it. -/
theorem Admits.heldUntil (admitted : c.Admits now request change) (filed : c.Filed)
    (held : c.table[id]? = some op) (lasts : c.HeldUntil id hold) (unset : ¬ request.Holds id) :
    change.core.HeldUntil id hold := by
  intro later found
  obtain ⟨edited, again, edits⟩ := admitted.edits filed held
  cases found.symm.trans again
  by_contra differs
  refine unset (edits.hold ?_)
  rw [lasts op held]
  exact differs

/-- No pass starts an operation before its hold ends. -/
theorem HeldUntil.not_started (lasts : c.HeldUntil id hold) (early : now < hold)
    (dispatches : c.prune.2.Dispatches now operations) : id ∉ operations.map (·.id) := by
  intro started
  obtain ⟨op, listed, rfl⟩ := List.mem_map.mp started
  obtain ⟨-, -, -, waiting, found, isReady, -⟩ := dispatches.ready listed
  have free := (Readiness.isReady_iff.mp isReady).2.2.1
  have held : waiting.isHeld now = true :=
    Operation.isHeld_iff.mpr ⟨hold, lasts waiting (held_of_pruned found), early⟩
  cases free.symm.trans held

/-- A held operation may start from its hold on, if nothing else keeps it. -/
theorem HeldUntil.mem_ready_iff (lasts : c.HeldUntil id hold) (filed : c.Filed) :
    id ∈ c.ready t ↔ hold ≤ t ∧ ∃ op, c.Unhindered id op := by
  have free {op : Operation} (unhindered : c.Unhindered id op) :
      op.isHeld t = false ↔ hold ≤ t := by
    rw [Bool.eq_false_iff, Ne, Operation.isHeld_iff, lasts op unhindered.held]
    simp [Instant.not_lt]
  rw [filed.mem_ready_iff]
  constructor
  · rintro ⟨op, unhindered, notHeld⟩
    exact ⟨(free unhindered).mp notHeld, op, unhindered⟩
  · rintro ⟨due, op, unhindered⟩
    exact ⟨op, unhindered, (free unhindered).mpr due⟩

/-- A call that does not set the hold of a live operation leaves it and heeds it. -/
theorem Answers.heldUntil (answers : c.Answers now request answer after) (filed : c.Filed)
    (live : id ∈ c.table) (lasts : c.HeldUntil id hold)
    (unset : ∀ accepted ∈ Entry.accepted? ⟨c, .request now request, answer⟩,
      ¬ accepted.Holds id) :
    after.HeldUntil id hold ∧
      (now < hold → id ∉ (Entry.dispatched ⟨c, .request now request, answer⟩).map (·.id)) := by
  cases answers with
  | rejected | idle => exact ⟨lasts, fun _ => List.not_mem_nil⟩
  | accepted admitted dispatches =>
    obtain ⟨op, held⟩ := mem_table.mp live
    have edited := admitted.heldUntil filed held lasts (unset request rfl)
    exact ⟨edited.settle (filed.admitted admitted) dispatches,
      fun early => edited.not_started early dispatches⟩

end Core

section Run
variable {σ : Type} [OperationStore σ] {names : Names} {algorithm : Algorithm}
  {history since : List Entry} {e later : Engine σ} {id : OperationId} {hold : Instant}

/-- As long as an operation is live and no call sets its hold, the hold stays and is heeded. -/
theorem Run.heldUntil (run : Run names algorithm history e) (lasts : e.core.HeldUntil id hold)
    (goesOn : e.GoesOn since later) (live : ∀ entry ∈ since, id ∈ entry.before.table)
    (unset : ∀ entry ∈ since, ∀ request ∈ entry.accepted?, ¬ request.Holds id) :
    later.core.HeldUntil id hold ∧ ∀ entry ∈ since, ∀ t request,
      entry.call = .request t request → t < hold → id ∉ entry.dispatched.map (·.id) := by
  induction goesOn with
  | here => exact ⟨lasts, List.forall_mem_nil _⟩
  | @call since later goesOn store call ih =>
    obtain ⟨still, heeded⟩ := ih (fun entry member => live entry (List.mem_cons_of_mem _ member))
      fun entry member => unset entry (List.mem_cons_of_mem _ member)
    cases call with
    | retireMissing batches =>
      refine ⟨still, List.forall_mem_cons.mpr ⟨?_, heeded⟩⟩
      rintro _ _ ⟨⟩
    | request now request =>
      have filed := (run.goesOn goesOn).sound.filed
      have answers := Engine.apply_answers ⟨later.core, store⟩ now request filed
      obtain ⟨kept, early⟩ := answers.heldUntil filed (live _ List.mem_cons_self) still
        (unset _ List.mem_cons_self)
      refine ⟨kept, List.forall_mem_cons.mpr ⟨?_, heeded⟩⟩
      rintro _ _ ⟨⟩
      exact early

end Run

section Run
variable {σ : Type} [OperationStore σ] [MemoryBacked σ] {names : Names} {algorithm : Algorithm}
  {history : List Entry} {e after : Engine σ} {now : Instant} {id : OperationId} {delay : Delay}
  {step : Step}

/-- In every state of every run, an operation that is given back with a delay is held until the
instant that the delay leads to, or the last one if the clock ends before that, in memory and in the
store. As long as it is live and no other call sets its hold, no call at an earlier instant starts
it, this one included; it is ready from that instant on, and only then, if nothing but the hold is
in its way. -/
theorem retry_held_until_due (run : Run names algorithm history e)
    (indexed : (memory e.store).Indexed)
    (answered : e.apply now (.reset id (some delay)) = (.ok step, after)) :
    ∃ hold : Instant, hold.IsSaturatedSum now delay ∧
      after.core.holdOf id = .ok (some hold) ∧ (memory after.store).NotesHold id hold ∧
      (now < hold → id ∉ step.dispatched.map (·.id)) ∧
      ∀ since later, after.GoesOn since later → (∀ entry ∈ since, id ∈ entry.before.table) →
        (∀ entry ∈ since, ∀ request ∈ entry.accepted?, ¬ request.Holds id) →
        (∀ entry ∈ since, ∀ t request, entry.call = .request t request → t < hold →
          id ∉ entry.dispatched.map (·.id)) ∧
        ∀ t, id ∈ later.core.ready t ↔ hold ≤ t ∧ ∃ op, later.core.Unhindered id op := by
  have runAfter := run.applied answered
  have asks : e.core.changeFor now (.reset id (some delay)) ≠ .ok none := fun idle =>
    nomatch (Core.idle_subject idle)
  obtain ⟨change, store, last, carried⟩ :=
    Engine.CarriesOut.of_accepted asks (congrArg Prod.fst answered)
  obtain ⟨-, rfl⟩ := Prod.mk.inj (carried.ended.symm.trans answered)
  have filed := run.sound.filed
  have admitted := Core.admits_of_changeFor carried.decided
  have changeFiled := filed.admitted admitted
  obtain ⟨dispatches, -, left⟩ := carried.passed changeFiled
  obtain ⟨wrote, op, held, pending, hold⟩ := admitted.resets
  have lasts : change.core.HeldUntil id (now.after delay) := fun other found =>
    Option.some.inj (held.symm.trans found) ▸ hold
  have unfinished : op.status.isFinal = false := by rw [pending]; rfl
  refine ⟨now.after delay, now.after_isSaturatedSum delay, ?memory, ?store, fun early => ?started,
    fun since later goesOn live unset => ?since⟩
  case memory =>
    rw [left, ← hold]
    exact (Core.hasSet_settled changeFiled dispatches held unfinished).1
  case store =>
    have noted := Memory.notesHold_of_accepted indexed (carried.written.1 _ wrote)
    have passed := Engine.dispatch_notesHold ⟨change.core.prune.2, store⟩ now
      (carried.indexed indexed) noted
    rwa [left]
  case started =>
    exact lasts.not_started early dispatches
  case since =>
    have settled : last.core.HeldUntil id (now.after delay) := by
      rw [left]
      exact lasts.settle changeFiled dispatches
    obtain ⟨still, heeded⟩ := runAfter.heldUntil settled goesOn live unset
    exact ⟨heeded, fun t => still.mem_ready_iff (runAfter.goesOn goesOn).sound.filed⟩

/-- A commit of one operation, which is started at once. -/
def startedAtOnce : List Call := [.request .first (.append 1 [.new (.ofNat 1)] [])]

/-- The longest delay that can be asked for. -/
def longestDelay : Delay := ⟨2 ^ 64 - 1, 999999999, by decide⟩

/-- After the longest delay an operation is held until the last instant. -/
theorem longest_delay_saturates :
    let e := (runOf (.new "uploads" []) .commitGraph Memory.empty startedAtOnce).2
    let id := OperationId.ofNat 1
    Delay.spans.saturatingSum .first longestDelay = .last ∧
    ∃ step after, (memory e.store).Indexed ∧
      e.apply .first (.reset id (some longestDelay)) = (.ok step, after) ∧
      Instant.IsSaturatedSum .last .first longestDelay ∧
      after.core.holdOf id = .ok (some .last) ∧ (memory after.store).NotesHold id .last ∧
      id ∉ step.dispatched.map (·.id) ∧
      ∀ since later, after.GoesOn since later → (∀ entry ∈ since, id ∈ entry.before.table) →
        (∀ entry ∈ since, ∀ request ∈ entry.accepted?, ¬ request.Holds id) →
        (∀ entry ∈ since, ∀ t request, entry.call = .request t request → t < .last →
          id ∉ entry.dispatched.map (·.id)) ∧
        ∀ t, id ∈ later.core.ready t ↔ .last ≤ t ∧ ∃ op, later.core.Unhindered id op := by
  intro e id
  have sole : SoleRun (.new "uploads" []) .commitGraph Memory.empty _ e :=
    .of_calls _ _ _ startedAtOnce
  have indexed : (memory e.store).Indexed := (sole.mirrored Memory.indexed_empty).indexed
  have accepted : (e.apply .first (.reset id (some longestDelay))).1.isOk = true := by
    decide +kernel
  have held : (e.apply .first (.reset id (some longestDelay))).2.core.holdOf id =
      .ok (some .last) := by decide +kernel
  cases answered : e.apply .first (.reset id (some longestDelay)) with
  | mk answer after =>
    rw [answered] at accepted held
    cases answer with
    | error error => cases accepted
    | ok step =>
      obtain ⟨hold, sum, inMemory, inStore, notStarted, goesOn⟩ :=
        retry_held_until_due sole.run indexed answered
      cases inMemory.symm.trans held
      exact ⟨by decide +kernel, step, after, indexed, rfl, sum, held, inStore,
        notStarted (by decide), goesOn⟩

end Run
end CommitPipeline
