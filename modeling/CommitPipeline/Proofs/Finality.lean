import CommitPipeline.Proofs.History
import CommitPipeline.Store.Memory

/-! What a pipeline takes for final. It is what calls have finalized and what was retired, and it
stays so: an identifier that is queued again after that is live and taken for final at once. -/
namespace CommitPipeline

namespace Core
variable {c after : Core} {id : OperationId} {op : Operation} {now : Instant} {request : Request}
  {change : Change} {operations : List Operation} {batches : List Batch}
  {answer : Except Error Step} {history : List Entry}

theorem isFinalized_iff : c.isFinalized id = true ↔
    id ∈ c.retired ∨ ∃ op, c.table[id]? = some op ∧ op.status.isFinal = true := by
  rw [isFinalized, Bool.or_eq_true, Std.ExtTreeSet.contains_iff_mem]
  cases c.table[id]? <;> simp

theorem isFinalized_of_absent (absent : id ∉ c.table) :
    c.isFinalized id = true ↔ id ∈ c.retired := by
  rw [isFinalized_iff]
  exact or_iff_left fun ⟨op, held, _⟩ => absent (mem_table.mpr ⟨op, held⟩)

theorem isFinalized_of_unfinished (unfinished : c.Unfinished id) :
    c.isFinalized id = true ↔ id ∈ c.retired := by
  obtain ⟨op, held, unfinished⟩ := unfinished
  rw [isFinalized_iff]
  refine or_iff_left fun ⟨other, found, final⟩ => ?_
  cases held.symm.trans found
  rw [unfinished] at final
  cases final

/-! ### One call -/

/-- Whatever is finalized is live. -/
theorem Admits.finalizes (admitted : c.Admits now request change)
    (finalized : request.finalized? = some id) : ∃ op, c.table[id]? = some op := by
  cases admitted with
  | complete held | skip held =>
    cases finalized
    exact ⟨_, held⟩
  | append | restore | reset | forceActive | setHold | setLimit | suspend | resume | dispatch =>
    cases finalized

theorem Admits.isFinalized (filed : c.Filed) (admitted : c.Admits now request change) :
    change.core.isFinalized id = true ↔
      c.isFinalized id = true ∨ request.finalized? = some id := by
  rw [isFinalized_iff, isFinalized_iff, admitted.retired]
  constructor
  · rintro (retired | ⟨op, held, final⟩)
    · exact .inl (.inl retired)
    · exact (admitted.final filed held final).symm.imp_left .inr
  · rintro ((retired | ⟨op, held, final⟩) | finalized)
    · exact .inl retired
    · obtain ⟨later, found, -, isFinal⟩ := admitted.forward filed held
      exact .inr ⟨later, found, isFinal.mpr (.inl final)⟩
    · obtain ⟨op, held⟩ := admitted.finalizes finalized
      obtain ⟨later, found, -, isFinal⟩ := admitted.forward filed held
      exact .inr ⟨later, found, isFinal.mpr (.inr finalized)⟩

/-- The end of a call forgets operations, but not that they are final. -/
theorem settled_isFinalized (filed : c.Filed)
    (dispatches : c.prune.2.Dispatches now operations) :
    (c.settled operations).isFinalized id = true ↔ c.isFinalized id = true := by
  rw [isFinalized_iff, isFinalized_iff, settled_retired, mem_retired_pruned]
  constructor
  · rintro ((drained | retired) | ⟨op, held, final⟩)
    · exact .inr (final_of_drained filed drained)
    · exact .inl retired
    · obtain ⟨earlier, found, -, same⟩ := settled_origin filed dispatches held
      exact .inr ⟨earlier, found, same ▸ final⟩
  · rintro (retired | ⟨op, held, final⟩)
    · exact .inl (.inr retired)
    · by_cases drained : id ∈ c.drainedMembers
      · exact .inl (.inl drained)
      · have kept : c.prune.2.table[id]? = some op := by rw [lookup_pruned, if_neg drained, held]
        exact .inr ⟨op, final_kept dispatches kept final, final⟩

theorem Answers.isFinalized (answers : c.Answers now request answer after) (filed : c.Filed) :
    after.isFinalized id = true ↔ c.isFinalized id = true ∨
      Entry.finalized? ⟨c, .request now request, answer⟩ = some id := by
  cases answers with
  | rejected error => simp [Entry.finalized?, Entry.accepted?]
  | idle idle => simp [Entry.finalized?, Entry.accepted?, (idle_quiet idle).2.1]
  | accepted admitted dispatches =>
    rw [settled_isFinalized (filed.admitted admitted) dispatches, admitted.isFinalized filed]
    rfl

theorem retireMissing_isFinalized : (c.retireMissing batches).isFinalized id = true ↔
    c.isFinalized id = true ∨ c.IsMissing batches id := by
  rw [isFinalized_iff, isFinalized_iff, mem_retireMissing, or_right_comm]
  rfl

end Core

/-- A call makes final what it finalizes or retires, and undoes no finality. -/
theorem Engine.call_isFinalized {σ : Type} [OperationStore σ] (e : Engine σ) (call : Call)
    (filed : e.core.Filed) (id : OperationId) :
    (e.call call).2.core.isFinalized id = true ↔ e.core.isFinalized id = true ∨
      Entry.finalized? ⟨e.core, call, (e.call call).1⟩ = some id ∨
        Entry.Retires ⟨e.core, call, (e.call call).1⟩ id := by
  cases call with
  | request now request =>
    refine ((e.apply_answers now request filed).isFinalized filed).trans (or_congr_right ?_)
    refine (or_iff_left ?_).symm
    rintro ⟨_, ⟨⟩, -⟩
  | retireMissing batches =>
    refine Core.retireMissing_isFinalized.trans (or_congr_right ⟨fun missing => ?_, ?_⟩)
    · exact .inr ⟨batches, rfl, missing⟩
    · rintro (⟨⟨⟩⟩ | ⟨_, ⟨⟩, missing⟩)
      exact missing

/-! ### Runs -/

/-- The last call of a history that queued an operation, with what came later and earlier. -/
structure QueuedLast (history : List Entry) (id : OperationId) (later : List Entry)
    (entry : Entry) (earlier : List Entry) : Prop where
  split : history = later ++ entry :: earlier
  queues : entry.Queues id
  last : ∀ other ∈ later, ¬ other.Queues id

theorem QueuedLast.cons {history later earlier : List Entry} {entry newest : Entry}
    {id : OperationId} (queued : QueuedLast history id later entry earlier)
    (silent : ¬ newest.Queues id) :
    QueuedLast (newest :: history) id (newest :: later) entry earlier where
  split := by rw [queued.split, List.cons_append]
  queues := queued.queues
  last := List.forall_mem_cons.mpr ⟨silent, queued.last⟩

namespace Core
variable {c after : Core} {id : OperationId} {now : Instant} {request : Request}
  {operations : List Operation} {answer : Except Error Step} {history : List Entry}

/-- A live operation is taken for retired if and only if its identifier was through already when the
operation was queued. -/
def MarksReturned (c : Core) (history : List Entry) : Prop :=
  ∀ id ∈ c.table, ∃ later entry earlier, QueuedLast history id later entry earlier ∧
    (id ∈ c.retired ↔ FinalizedIn earlier id ∨ RetiredIn earlier id)

theorem MarksReturned.quiet {entry : Entry} (marks : c.MarksReturned history)
    (table : after.table = c.table) (silent : ∀ id ∈ c.table, ¬ entry.Queues id)
    (retired : ∀ id ∈ c.table, id ∈ after.retired ↔ id ∈ c.retired) :
    after.MarksReturned (entry :: history) := by
  intro id live
  rw [table] at live
  obtain ⟨later, queueing, earlier, queued, marked⟩ := marks id live
  exact ⟨entry :: later, queueing, earlier, queued.cons (silent id live),
    (retired id live).trans marked⟩

theorem MarksReturned.answered (marks : c.MarksReturned history) (filed : c.Filed)
    (known : ∀ id, c.isFinalized id = true ↔ FinalizedIn history id ∨ RetiredIn history id)
    (answers : c.Answers now request answer after) :
    after.MarksReturned (⟨c, .request now request, answer⟩ :: history) := by
  have silent : ∀ id ∈ c.table, ¬ Entry.Queues ⟨c, .request now request, answer⟩ id :=
    fun id live queues => answers.queues_fresh queues live
  cases answers with
  | rejected | idle => exact marks.quiet rfl silent fun _ _ => .rfl
  | @accepted change operations admitted dispatches =>
    have editedFiled := filed.admitted admitted
    intro id live
    obtain ⟨edited, notDrained⟩ := (mem_settled_table editedFiled dispatches).mp live
    have same : id ∈ (change.core.settled operations).retired ↔ id ∈ c.retired := by
      rw [settled_retired, mem_retired_pruned, or_iff_right notDrained, admitted.retired]
    by_cases old : id ∈ c.table
    · obtain ⟨later, queueing, earlier, queued, marked⟩ := marks id old
      exact ⟨_, queueing, earlier, queued.cons (silent id old), same.trans marked⟩
    · have queues := admitted.queues_new filed edited old
      refine ⟨[], _, history, ⟨rfl, queues, List.forall_mem_nil _⟩, ?_⟩
      rw [same, ← isFinalized_of_absent old, known]

end Core

section Run
variable {σ : Type} [OperationStore σ] {names : Names} {algorithm : Algorithm}
  {history : List Entry} {e : Engine σ} {id : OperationId}

/-- A pipeline takes for final what calls have finalized and what was retired, and nothing else. -/
theorem Run.isFinalized_iff (run : Run names algorithm history e) :
    e.core.isFinalized id = true ↔ FinalizedIn history id ∨ RetiredIn history id := by
  induction run with
  | launch store => simp [Core.isFinalized_iff, Core.new, FinalizedIn, RetiredIn]
  | @call history e earlier store call ih =>
    rw [Engine.call_isFinalized ⟨e.core, store⟩ call earlier.sound.filed id, ih, finalizedIn_cons,
      retiredIn_cons]
    tauto

theorem Run.marksReturned (run : Run names algorithm history e) :
    e.core.MarksReturned history := by
  induction run with
  | launch store => simp [Core.MarksReturned, Core.new]
  | @call history e earlier store call ih =>
    cases call with
    | request now request =>
      have filed := earlier.sound.filed
      exact ih.answered filed (fun id => earlier.isFinalized_iff)
        (Engine.apply_answers ⟨e.core, store⟩ now request filed)
    | retireMissing batches =>
      refine ih.quiet rfl (fun id _ => ?_) fun id live => ?_
      · rintro ⟨_, ⟨⟩, -⟩
      · exact Core.mem_retireMissing.trans (or_iff_left fun missing => missing.2.2 live)

/-- A live operation has been told apart from one that is through: it is not retired, and it is
taken for final only if it is. -/
def Core.TellsApart (c : Core) : Prop :=
  (∀ id ∈ c.retired, id ∉ c.table) ∧
    ∀ (id : OperationId) (op : Operation), c.table[id]? = some op → op.status.isFinal = false →
      c.isFinalized id = false

/-- A live operation is retired exactly if its identifier had been finalized or retired before the
call that queued it, and exactly then it is taken for final while it is not. -/
theorem live_retired_iff {op : Operation} (run : Run names algorithm history e)
    (held : e.core.table[id]? = some op) :
    ∃ later entry earlier, QueuedLast history id later entry earlier ∧
      (id ∈ e.core.retired ↔ FinalizedIn earlier id ∨ RetiredIn earlier id) ∧
      (op.status.isFinal = false →
        (e.core.isFinalized id = true ↔ FinalizedIn earlier id ∨ RetiredIn earlier id)) := by
  obtain ⟨later, entry, earlier, queued, marked⟩ := run.marksReturned id (mem_table.mpr ⟨op, held⟩)
  refine ⟨later, entry, earlier, queued, marked, fun unfinished => ?_⟩
  exact (Core.isFinalized_of_unfinished ⟨op, held, unfinished⟩).trans marked

/-- An operation that is completed and comes again with the next commit, the latest call first. -/
def uploadedTwice : List Call := [
  .request .first (.append 2 [.new (.ofNat 1)] []),
  .request .first (.complete (.ofNat 1)),
  .request .first (.append 1 [.new (.ofNat 1)] [])]

theorem second_upload_retired :
    let run := runOf (.new "uploads" []) .commitGraph Memory.empty uploadedTwice
    ∃ op later entry earlier, run.2.core.table[OperationId.ofNat 1]? = some op ∧
      op.status = .active ∧ QueuedLast run.1 (.ofNat 1) later entry earlier ∧
      FinalizedIn earlier (.ofNat 1) ∧ OperationId.ofNat 1 ∈ run.2.core.retired ∧
      run.2.core.isFinalized (.ofNat 1) = true := by
  intro run
  have reached := Run.of_calls (.new "uploads" []) .commitGraph Memory.empty uploadedTwice
  have live : (run.2.core.table[OperationId.ofNat 1]?.any (·.status = .active)) = true := by
    decide +kernel
  obtain ⟨op, held, active⟩ := (Option.any_eq_true ..).mp live
  have active : op.status = .active := of_decide_eq_true active
  obtain ⟨later, entry, earlier, queued, retired, told⟩ := live_retired_iff reached held
  have isRetired : OperationId.ofNat 1 ∈ run.2.core.retired := by decide +kernel
  have noneRetires : ∀ entry ∈ run.1, ∀ batches, entry.call ≠ .retireMissing batches := by
    simp [run, runOf, uploadedTwice]
  have finalized : FinalizedIn earlier (.ofNat 1) := by
    refine (retired.mp isRetired).resolve_right fun ⟨other, member, batches, retires, _⟩ => ?_
    exact noneRetires other (by rw [queued.split]; simp [member]) batches retires
  exact ⟨op, later, entry, earlier, held, active, queued, finalized, isRetired,
    (told (by rw [active]; rfl)).mpr (.inl finalized)⟩

/-- Commits may bring an identifier again, and then a running operation is taken for final. -/
theorem second_upload_taken_for_final :
    let run := runOf (.new "uploads" []) .commitGraph Memory.empty uploadedTwice
    Run (.new "uploads" []) .commitGraph run.1 run.2 ∧ ¬ run.2.core.TellsApart := by
  intro run
  refine ⟨.of_calls .., fun ⟨apart, _⟩ => ?_⟩
  exact apart (.ofNat 1) (by decide +kernel) (by decide +kernel)

end Run
end CommitPipeline
