import CommitPipeline.Proofs.Draining
import CommitPipeline.Proofs.Durability

/-! A pipeline stalls only for a reason. If nobody has suspended it and nothing is held, a pass
leaves something running as long as something is queued, and finishing what runs empties the queue,
the table and the store. Dependencies may form any graph without circles. -/
namespace CommitPipeline

namespace Core
variable {c after : Core} {former m : Memory} {ids : Set OperationId} {id : OperationId}
  {op : Operation} {edit : Operation → Operation}

/-- Under some identifiers, those of the live operations among them, a memory has what is unfinished
of a pipeline; under all others it has what it had before. -/
structure RecordsIn (c : Core) (ids : Set OperationId) (former m : Memory) : Prop where
  indexed : m.Indexed
  live : ∀ id ∈ c.table, id ∈ ids
  own : ∀ id ∈ ids, m.get? id = c.unfinished? id
  others : ∀ id, id ∉ ids → m.get? id = former.get? id

theorem CopiedTo.recordsIn (copied : c.CopiedTo m) (indexed : m.Indexed) :
    c.RecordsIn {id | id ∈ c.table} m m := by
  refine ⟨indexed, fun _ live => live, fun id live => ?_, fun _ _ => rfl⟩
  obtain ⟨op, held⟩ := mem_table.mp live
  rw [copied id op held, unfinished?, held, Option.filter_some]
  cases op.status.isFinal <;> rfl

theorem RecordsIn.of_same (records : c.RecordsIn ids former m) (table : after.table = c.table) :
    after.RecordsIn ids former m := by
  have same : after.unfinished? = c.unfinished? := funext fun id => by
    rw [unfinished?, unfinished?, table]
  exact ⟨records.indexed, fun id live => records.live id (table ▸ live),
    fun id member => same ▸ records.own id member, records.others⟩

/-- A write about one live operation leaves all other records. -/
theorem RecordsIn.written {next : Operation} {written : Memory} (records : c.RecordsIn ids former m)
    (held : c.table[id]? = some op) (indexed : written.Indexed)
    (table : ∀ other : OperationId,
      after.table[other]? = if id = other then some next else c.table[other]?)
    (record : ∀ other : OperationId,
      written.get? other = if id = other then after.unfinished? id else m.get? other) :
    after.RecordsIn ids former written := by
  have member := records.live id (mem_table.mpr ⟨op, held⟩)
  refine ⟨indexed, fun other live => ?_, fun other inside => ?_, fun other outside => ?_⟩
  · obtain ⟨found, lookup⟩ := mem_table.mp live
    rw [table] at lookup
    split at lookup
    · rename_i same
      exact same ▸ member
    · exact records.live other (mem_table.mpr ⟨found, lookup⟩)
  · rw [record]
    split
    · rename_i same
      rw [same]
    · rename_i different
      rw [records.own other inside, unfinished?, unfinished?, table, if_neg different]
  · have different : id ≠ other := fun same => outside (same ▸ member)
    rw [record, if_neg different]
    exact records.others other outside

theorem RecordsIn.updated (records : c.RecordsIn ids former m) (held : c.table[id]? = some op)
    (unfinished : op.status.isFinal = false) (kept : ∀ op, (edit op).id = op.id)
    (still : (edit op).status.isFinal = false) (table : ∀ other : OperationId,
      after.table[other]? = if id = other then some (edit op) else c.table[other]?) :
    after.RecordsIn ids former (m.update id edit).2 := by
  refine records.written held (records.indexed.update kept) table fun other => ?_
  have recorded : m.get? id = some op := by
    rw [records.own id (records.live id (mem_table.mpr ⟨op, held⟩)), unfinished?, held,
      Option.filter_some, unfinished]
    rfl
  have renewed : after.unfinished? id = some (edit op) := by
    rw [unfinished?, table, if_pos rfl, Option.filter_some, still]
    rfl
  rw [Memory.get?_update records.indexed kept, renewed]
  split
  · rename_i same
    rw [← same, recorded, Option.map_some]
  · rfl

theorem RecordsIn.deleted {final : Operation} (records : c.RecordsIn ids former m)
    (held : c.table[id]? = some op) (isFinal : final.status.isFinal = true)
    (table : ∀ other : OperationId,
      after.table[other]? = if id = other then some final else c.table[other]?) :
    after.RecordsIn ids former (m.delete id).2 := by
  refine records.written held records.indexed.delete table fun other => ?_
  have through : after.unfinished? id = none := by
    rw [unfinished?, table, if_pos rfl, Option.filter_some, isFinal]
    rfl
  rw [Memory.get?_delete records.indexed, through]

theorem RecordsIn.prune (records : c.RecordsIn ids former m) (filed : c.Filed) :
    c.prune.2.RecordsIn ids former m := by
  refine ⟨records.indexed, fun id live => ?_, fun id member => ?_, records.others⟩
  · obtain ⟨op, held⟩ := mem_table.mp live
    exact records.live id (mem_table.mpr ⟨op, held_of_pruned held⟩)
  · rw [records.own id member, unfinished?_pruned filed]

end Core

namespace Engine
variable {e later : Engine Memory} {ids : Set OperationId} {former : Memory} {now start : Instant}

/-- A pass notes each start under the identifier of the operation. -/
theorem start_recordsIn (e : Engine Memory) (free : Nat) {offered : List OperationId}
    (waiting : ∀ id ∈ offered, ∃ op, e.core.table[id]? = some op ∧ op.status.isFinal = false)
    (keyed : e.core.table.Keyed) (records : e.core.RecordsIn ids former e.store) :
    (e.start offered free).2.core.RecordsIn ids former (e.start offered free).2.store := by
  let Recorded (e : Engine Memory) : Prop :=
    e.core.table.Keyed ∧ e.core.RecordsIn ids former e.store ∧
      ∀ id ∈ offered, ∃ op, e.core.table[id]? = some op ∧ op.status.isFinal = false
  have kept : Recorded (e.start offered free).2 := by
    refine e.start_preserves free ?refused ?accepted ⟨keyed, records, waiting⟩
    case refused =>
      rintro e error store id - performed ⟨keyed, records, waiting⟩
      have same : store = e.store := by
        have rejected := Memory.perform_rejected records.indexed (congrArg Prod.fst performed)
        exact (congrArg Prod.snd performed).symm.trans rejected
      exact ⟨keyed, same ▸ records, waiting⟩
    case accepted =>
      rintro e store id member performed ⟨keyed, records, waiting⟩
      obtain ⟨op, held, unfinished⟩ := waiting id member
      refine ⟨fun unknown => (nomatch held.symm.trans unknown), fun found same => ?_⟩
      cases held.symm.trans same
      have named : op.id = id := keyed id op held
      have updated : e.store.update id ({ · with status := .active }) = (.ok (), store) :=
        Memory.perform_accepted performed
      have noted : (e.core.start { op with status := .active }).RecordsIn ids former
          (e.store.update id ({ · with status := .active })).2 :=
        records.updated held unfinished (fun _ => rfl) rfl fun other => by
          rw [Core.start, lookup_insert, named]
      rw [updated] at noted
      refine ⟨keyed.insert, noted, fun other offered => ?_⟩
      rw [Core.start, lookup_insert]
      split
      · exact ⟨_, rfl, rfl⟩
      · exact waiting other offered
  exact kept.2.1

theorem finish_recordsIn (now : Instant) (events : EventSet) (filed : e.core.Filed)
    (records : e.core.RecordsIn ids former e.store) :
    (e.finish now events).2.core.RecordsIn ids former (e.finish now events).2.store := by
  have passed : (dispatch { e with core := e.core.prune.2 } now).2.core.RecordsIn ids former
      (dispatch { e with core := e.core.prune.2 } now).2.store := by
    rw [dispatch]
    split
    · exact records.prune filed
    · refine start_recordsIn _ _ (fun id member => ?_) filed.prune.keyed (records.prune filed)
      obtain ⟨op, held, pending⟩ := Readiness.pending_of_ready member
      exact ⟨op, held, by rw [pending]; rfl⟩
  simp only [finish]
  exact passed.of_same rfl

theorem Flows.drains_recordsIn {count : Nat} (flows : e.Flows start)
    (records : e.core.RecordsIn ids former e.store) (drains : e.Drains start count later) :
    later.core.RecordsIn ids former later.store := by
  induction drains with
  | refl => exact records
  | @finish count later drains now due request id op finishes held running ih =>
    have able := (flows.drains drains).1.able
    obtain ⟨status, store, isFinal, performed, -, admitted, -, left⟩ :=
      apply_finishing able.accepts finishes held running now
    have deleted : later.store.delete id = (.ok (), store) := Memory.perform_accepted performed
    have lookup : ∀ other : OperationId, (later.core.finalize id status).core.table[other]? =
        if id = other then some { op with status } else later.core.table[other]? := by
      intro other
      simp only [Core.finalize, lookup_modify]
      split
      · rename_i same
        rw [← same, held, Option.map_some]
      · rfl
    have noted := ih.deleted held (by exact isFinal) lookup
    rw [deleted] at noted
    rw [left]
    exact finish_recordsIn now .queue (able.filed.admitted admitted) noted

end Engine

/-! ### From any state of a run -/

section Run
variable {σ : Type} [OperationStore σ] {names : Names} {algorithm : Algorithm}
  {history : List Entry} {e : Engine σ} {m : Memory}

/-- A pipeline with the memory that mirrors it, whatever store it had before. -/
theorem Run.able (run : Run names algorithm history e) (indexed : m.Indexed)
    (copied : e.core.CopiedTo m) (unlocked : m.readOnly = false)
    (unsuspended : e.core.suspendCount = 0) (slots : 1 ≤ e.core.limit)
    (orderly : e.core.Orderly) : Engine.Able ⟨e.core, m⟩ := by
  have sound := run.sound
  refine ⟨sound.filed, sound.tracked, orderly, unsuspended, slots, ?_⟩
  have serves : m.Serves {id | e.core.Unfinished id} := by
    refine ⟨indexed, unlocked, fun id ⟨op, held, unfinished⟩ => ?_⟩
    have record := copied id op held
    rw [unfinished] at record
    exact Memory.known_of_get? record
  exact serves.accepts

/-- In every state of every run, over a memory that mirrors it and takes writes: if the pipeline is
orderly and not suspended, has a slot, and holds back nothing that it considers, something runs
after a pass unless nothing is queued. If nothing at all is held, the pipeline then runs dry by
finishing what runs: queue and table get empty, and of the memory is left what was not the
pipeline's. -/
theorem no_avoidable_stall (run : Run names algorithm history e) (indexed : m.Indexed)
    (copied : e.core.CopiedTo m) (unlocked : m.readOnly = false)
    (unsuspended : e.core.suspendCount = 0) (slots : 1 ≤ e.core.limit) (orderly : e.core.Orderly)
    (now : Instant)
    (unheld : ∀ graph ∈ e.core.readiness.candidates, ∀ id ∈ graph.members, ∀ op : Operation,
      e.core.table[id]? = some op → op.status = .pending → op.isHeld now = false) :
    let passed := ((Engine.mk e.core m).apply now .dispatch).2
    (passed.core.queue.graphs = [] ∨
      ∃ (id : OperationId) (op : Operation),
        passed.core.table[id]? = some op ∧ op.status = .active) ∧
    ((∀ (id : OperationId) (op : Operation), e.core.table[id]? = some op →
        op.status = .pending → op.isHeld now = false) →
      passed.RunsDry now e.core.unfinishedCount ∧
      ∀ drained, passed.Drains now e.core.unfinishedCount drained → ∀ id,
        (id ∈ e.core.table → drained.store.get? id = none) ∧
        (id ∉ e.core.table → drained.store.get? id = m.get? id)) := by
  intro passed
  have able := run.able indexed copied unlocked unsuspended slots orderly
  have finished : passed = (Engine.finish ⟨e.core, m⟩ now .none).2 := rfl
  have quiet : e.core.prune.2 = e.core := Core.prune_of_busy run.sound.busy
  refine ⟨?_, fun nothingHeld => ?_⟩
  · rw [finished]
    refine able.finish_moves now .none fun id op startable => ?_
    change e.core.prune.2.Startable id op at startable
    rw [quiet] at startable
    obtain ⟨graph, candidate, member⟩ := startable.considered
    exact unheld graph candidate id member op startable.held startable.pending
  · have flows : passed.Flows now := by
      rw [finished]
      exact able.flows (Instant.le_refl now) nothingHeld .none
    have records : passed.core.RecordsIn {id | id ∈ e.core.table} m passed.store := by
      rw [finished]
      exact Engine.finish_recordsIn now .none able.filed (copied.recordsIn indexed)
    have counted : passed.core.unfinishedCount = e.core.unfinishedCount := by
      obtain ⟨operations, dispatches, -, left⟩ := Engine.finish_settled now .none able.filed
      rw [finished, left, Core.unfinishedCount_eq, Core.unfinishedCount_eq]
      exact congrArg Set.ncard (Set.ext fun id => Core.unfinished_settled able.filed dispatches)
    rw [← counted]
    refine ⟨flows.runsDry, fun drained drains id => ?_⟩
    have left := flows.drains_recordsIn records drains
    refine ⟨fun live => ?_, left.others id⟩
    rw [left.own id live, Core.unfinished?, (flows.runsDry.through drains).2]
    rfl

/-- A pipeline whose store refused to note the start of its first operation, so that nothing runs,
starts that operation once the memory behind takes writes, and then runs dry in two more steps. -/
theorem refused_start_drained :
    let e := (runOf (.new "uploads" []) .commitGraph RefusingStore.firstRefused secondCompleted).2
    let passed := ((Engine.mk e.core e.store.memory).apply .first .dispatch).2
    e.core.hasActive = false ∧
      (passed.core.queue.graphs = [] ∨ ∃ (id : OperationId) (op : Operation),
        passed.core.table[id]? = some op ∧ op.status = .active) ∧
      passed.RunsDry .first 2 := by
  intro e passed
  have run := SoleRun.of_calls (.new "uploads" []) .commitGraph RefusingStore.firstRefused
    secondCompleted
  have mirrored := run.mirrored Memory.indexed_empty
  have copied : e.core.CopiedTo e.store.memory := fun id op held =>
    mirrored.get?_live run.run.sound.filed held
  have descending : ∀ entry ∈ e.core.table.toList, ∀ dependency ∈ entry.2.dependencies.toList,
      dependency.value.val < entry.1.value.val := by decide +kernel
  have orderly : e.core.Orderly := by
    refine Core.orderly_of_rank (·.value.val) ?_ fun atOnce => ?_
    · rintro id other ⟨-, op, held, -, depends⟩
      refine (forall_table (p := fun id op => ∀ dependency ∈ op.dependencies.toList,
        dependency.value.val < id.value.val)).mp descending id op held other ?_
      exact Std.ExtTreeSet.mem_toList.mpr depends
    · cases run.run.algorithm_eq.symm.trans atOnce
  have unheld : ∀ entry ∈ e.core.table.toList, entry.2.status = .pending →
      entry.2.isHeld .first = false := by decide +kernel
  have nothingHeld : ∀ (id : OperationId) (op : Operation), e.core.table[id]? = some op →
      op.status = .pending → op.isHeld .first = false :=
    forall_table (p := fun _ op => op.status = .pending → op.isHeld .first = false).mp unheld
  have count : e.core.unfinishedCount = 2 := by decide +kernel
  have result := no_avoidable_stall run.run mirrored.indexed copied (by decide +kernel)
    (by decide +kernel) (by decide +kernel) orderly .first
    fun _ _ id _ op held pending => nothingHeld id op held pending
  rw [count] at result
  exact ⟨by decide +kernel, result.1, (result.2 nothingHeld).1⟩

end Run
end CommitPipeline
