import CommitPipeline.Proofs.StoreMirror

/-! Runs of a pipeline that alone writes to a memory, whichever of its writes are refused. In every
state the memory holds the unfinished operations of the pipeline as they are in its table, and
besides them only what it held at the start. -/
namespace CommitPipeline

/-- A store around a memory. It refuses a write and leaves the memory as it is, or passes the write
on; which writes it refuses may change with each of them. -/
class MemoryBacked (σ : Type) [OperationStore σ] where
  memory : σ → Memory
  refuses_or_passes : ∀ (store : σ) (write : Write),
    (∃ error, (OperationStore.perform store write).1 = .error error ∧
      memory (OperationStore.perform store write).2 = memory store) ∨
    ((OperationStore.perform store write).1 = ((memory store).perform write).1 ∧
      memory (OperationStore.perform store write).2 = ((memory store).perform write).2)

instance : MemoryBacked Memory where
  memory := id
  refuses_or_passes _ _ := .inr ⟨rfl, rfl⟩

instance : MemoryBacked RefusingStore where
  memory := RefusingStore.memory
  refuses_or_passes store write := by
    have passes : (store.pass write).1 = (store.memory.perform write).1 ∧
        (store.pass write).2.memory = (store.memory.perform write).2 := ⟨rfl, rfl⟩
    change (∃ error, (store.perform write).1 = _ ∧ (store.perform write).2.memory = _) ∨
      (store.perform write).1 = _ ∧ (store.perform write).2.memory = _
    cases write with
    | status id | statusAndHold id =>
      unfold RefusingStore.perform
      by_cases refused : store.refuses id = true
      · exact .inl ⟨.storage (.statusRefused id), by simp [refused]⟩
      · simp only [refused]
        exact .inr passes
    | save | hold | delete => exact .inr passes

namespace MemoryBacked
variable {σ : Type} [OperationStore σ] [MemoryBacked σ] {store next : σ} {write : Write}

/-- Whoever refuses a write, the memory is as it was. -/
theorem memory_of_refused {error : Error} (indexed : (memory store).Indexed)
    (refused : OperationStore.perform store write = (.error error, next)) :
    memory next = memory store := by
  have cases := refuses_or_passes store write
  rw [refused] at cases
  rcases cases with ⟨_, -, same⟩ | ⟨rejected, passed⟩
  · exact same
  · rw [passed]
    exact Memory.perform_rejected indexed rejected.symm

theorem perform_of_accepted (accepted : OperationStore.perform store write = (.ok (), next)) :
    (memory store).perform write = (.ok (), memory next) := by
  have cases := refuses_or_passes store write
  rw [accepted] at cases
  rcases cases with ⟨_, rejected, -⟩ | ⟨answer, passed⟩
  · cases rejected
  · exact Prod.ext answer.symm passed.symm

end MemoryBacked

open MemoryBacked (memory memory_of_refused perform_of_accepted)

/-- Two memories with the same records, though one of them may be locked. -/
structure Memory.SameRecords (m other : Memory) : Prop where
  graphs : other.graphs = m.graphs
  snapshotOf : other.snapshotOf = m.snapshotOf

namespace Memory.SameRecords
variable {m other : Memory}

theorem recordsAt (same : m.SameRecords other) (snapshot : Nat) :
    other.recordsAt snapshot = m.recordsAt snapshot := by
  rw [Memory.recordsAt, Memory.recordsAt, same.graphs]

theorem indexed (same : m.SameRecords other) (indexed : m.Indexed) : other.Indexed where
  filed snapshot op member := by
    rw [same.snapshotOf]
    exact indexed.filed snapshot op (same.recordsAt snapshot ▸ member)
  backed id snapshot known := by
    rw [same.recordsAt]
    exact indexed.backed id snapshot (same.snapshotOf ▸ known)

end Memory.SameRecords

namespace Core
variable {c : Core} {start m other : Memory}

theorem Mirrored.of_sameRecords (mirrored : c.Mirrored start m) (same : m.SameRecords other) :
    c.Mirrored start other := by
  refine ⟨same.indexed mirrored.indexed, fun snapshot => ?_, fun snapshot op member => ?_⟩
  · rw [same.recordsAt]
    exact mirrored.records snapshot
  · exact mirrored.others snapshot op (same.recordsAt snapshot ▸ member)

theorem start_continues {id : OperationId} {op : Operation} (keyed : c.table.Keyed)
    (held : c.table[id]? = some op) :
    c.table.Continues (c.start { op with status := .active }).table := by
  obtain rfl : op.id = id := keyed id op held
  intro other
  rw [start, lookup_insert]
  split
  · rename_i same
    rw [← same, held]
    exact .some (Operation.continues_of_eq rfl)
  · exact Table.Continues.refl c.table other

end Core

namespace Engine
variable {σ : Type} [OperationStore σ] [MemoryBacked σ] {start : Memory}

/-- A pass keeps the copy, one start at a time. -/
theorem start_mirrored (e : Engine σ) (free : Nat) {ids : List OperationId}
    (waiting : ∀ id ∈ ids, ∃ op, e.core.table[id]? = some op ∧ op.status.isFinal = false)
    (filed : e.core.Filed) (mirrored : e.core.Mirrored start (memory e.store)) :
    (e.start ids free).2.core.Mirrored start (memory (e.start ids free).2.store) := by
  let Copied (e : Engine σ) : Prop := e.core.Filed ∧ e.core.Mirrored start (memory e.store) ∧
    ∀ id ∈ ids, ∃ op, e.core.table[id]? = some op ∧ op.status.isFinal = false
  have kept : Copied (e.start ids free).2 := by
    refine e.start_preserves free ?refused ?accepted ⟨filed, mirrored, waiting⟩
    case refused =>
      rintro e error store id - performed ⟨filed, mirrored, waiting⟩
      have same := memory_of_refused mirrored.indexed performed
      exact ⟨filed, same.symm ▸ mirrored, waiting⟩
    case accepted =>
      rintro e store id member performed ⟨filed, mirrored, waiting⟩
      obtain ⟨op, held, unfinished⟩ := waiting id member
      refine ⟨fun unknown => (nomatch held.symm.trans unknown), fun found same => ?_⟩
      cases held.symm.trans same
      have updated : (memory e.store).update id ({ · with status := .active }) =
          (.ok (), memory store) := Memory.perform_accepted (perform_of_accepted performed)
      have named : op.id = id := filed.keyed id op held
      refine ⟨filed.of_continues rfl rfl rfl (Core.start_continues filed.keyed held),
        mirrored.updated filed held unfinished updated (fun _ => rfl) rfl rfl fun other => ?_,
        fun other offered => ?_⟩
      · rw [Core.start, lookup_insert, named]
      · rw [Core.start, lookup_insert]
        split
        · exact ⟨_, rfl, rfl⟩
        · exact waiting other offered
  exact kept.2.1

theorem dispatch_mirrored (e : Engine σ) (now : Instant) (filed : e.core.Filed)
    (mirrored : e.core.Mirrored start (memory e.store)) :
    (e.dispatch now).2.core.Mirrored start (memory (e.dispatch now).2.store) := by
  rw [dispatch]
  split
  · exact mirrored
  · refine e.start_mirrored _ (fun id member => ?_) filed mirrored
    obtain ⟨op, held, pending⟩ := Readiness.pending_of_ready member
    exact ⟨op, held, by rw [pending]; rfl⟩

/-- What becomes of a memory in a request: nothing, if the request is rejected or asks for what is the
case; otherwise the write of an admitted change goes through, and the final pass follows. -/
theorem apply_memory (e : Engine σ) (now : Instant) (request : Request)
    (indexed : (memory e.store).Indexed) :
    (∃ error, (e.apply now request).1 = .error error ∧ (e.apply now request).2.core = e.core ∧
      memory (e.apply now request).2.store = memory e.store) ∨
    (e.core.changeFor now request = .ok none ∧ e.apply now request = (.ok .empty, e)) ∨
    ∃ (change : Change) (store : σ), e.core.Admits now request change ∧
      (∀ write, change.write = some write →
        (memory e.store).perform write = (.ok (), memory store)) ∧
      (change.write = none → memory store = memory e.store) ∧
      e.apply now request = (.ok (finish ⟨change.core, store⟩ now change.events).1,
        (finish ⟨change.core, store⟩ now change.events).2) := by
  cases decided : e.core.changeFor now request with
  | error error =>
    rw [apply_error decided]
    exact .inl ⟨error, rfl, rfl, rfl⟩
  | ok found =>
    cases found with
    | none => exact .inr (.inl ⟨rfl, apply_idle decided⟩)
    | some change =>
      have admitted := Core.admits_of_changeFor decided
      cases writes : change.write with
      | none =>
        have silent : e.write change.write = (.ok (), e) := by rw [writes]; rfl
        refine .inr (.inr ⟨change, e.store, admitted, fun write has => ?_, fun _ => rfl,
          apply_done decided silent⟩)
        cases writes.symm.trans has
      | some write =>
        cases performed : OperationStore.perform e.store write with
        | mk answer store =>
          have written : e.write change.write = (answer, { e with store }) := by
            rw [writes, Engine.write, performed]
          cases answer with
          | error error =>
            rw [apply_refused decided written]
            exact .inl ⟨error, rfl, rfl, memory_of_refused indexed performed⟩
          | ok done =>
            refine .inr (.inr ⟨change, store, admitted, fun _ has => ?_, fun has => ?_,
              apply_done decided written⟩)
            · cases writes.symm.trans has
              exact perform_of_accepted performed
            · cases writes.symm.trans has

/-- Every request keeps the copy, whether it is rejected, refused or accepted. -/
theorem apply_mirrored (e : Engine σ) (now : Instant) (request : Request) (filed : e.core.Filed)
    (mirrored : e.core.Mirrored start (memory e.store)) :
    (e.apply now request).2.core.Mirrored start (memory (e.apply now request).2.store) := by
  rcases e.apply_memory now request mirrored.indexed with ⟨_, -, core, same⟩ | ⟨-, idle⟩ |
    ⟨change, store, admitted, wrote, silent, applied⟩
  · rw [core, same]
    exact mirrored
  · rw [idle]
    exact mirrored
  · rw [applied]
    have changed := mirrored.admitted filed admitted wrote silent
    have filed := filed.admitted admitted
    have passed := dispatch_mirrored ⟨change.core.prune.2, store⟩ now filed.prune
      (changed.prune filed)
    simp only [finish]
    exact passed.of_same rfl rfl

end Engine

/-- The runs of a new pipeline that alone writes to its store. Between two calls the store may
change what it refuses, but not what it holds. -/
inductive SoleRun {σ : Type} [OperationStore σ] [MemoryBacked σ] (names : Names)
    (algorithm : Algorithm) (start : σ) : List Entry → Engine σ → Prop where
  | launch : SoleRun names algorithm start [] ⟨.new names algorithm, start⟩
  | call {history : List Entry} {e : Engine σ} (run : SoleRun names algorithm start history e)
      (store : σ) (kept : (memory e.store).SameRecords (memory store)) (call : Call) :
      SoleRun names algorithm start
        (⟨e.core, call, (Engine.call ⟨e.core, store⟩ call).1⟩ :: history)
        (Engine.call ⟨e.core, store⟩ call).2

namespace SoleRun
variable {σ : Type} [OperationStore σ] [MemoryBacked σ] {names : Names} {algorithm : Algorithm}
  {start : σ} {history : List Entry} {e : Engine σ}

theorem run (run : SoleRun names algorithm start history e) : Run names algorithm history e := by
  induction run with
  | launch => exact .launch start
  | call _ store _ call ih => exact ih.call store call

theorem mirrored (run : SoleRun names algorithm start history e)
    (indexed : (memory start).Indexed) :
    e.core.Mirrored (memory start) (memory e.store) := by
  induction run with
  | launch => exact Core.mirrored_new names algorithm indexed
  | @call history e earlier store kept call ih =>
    have mirrored := ih.of_sameRecords kept
    cases call with
    | request now request =>
      exact Engine.apply_mirrored ⟨e.core, store⟩ now request earlier.run.sound.filed mirrored
    | retireMissing batches => exact mirrored.of_same rfl rfl

theorem of_calls (names : Names) (algorithm : Algorithm) (start : σ) (calls : List Call) :
    SoleRun names algorithm start (runOf names algorithm start calls).1
      (runOf names algorithm start calls).2 := by
  induction calls with
  | nil => exact .launch
  | cons call earlier ih => exact ih.call _ ⟨rfl, rfl⟩ call

end SoleRun

/-- A memory tells of every live operation what the pipeline knows: an unfinished one has a record,
the same in every field, and a final one has none. -/
def Core.CopiedTo (c : Core) (m : Memory) : Prop :=
  ∀ (id : OperationId) (op : Operation), c.table[id]? = some op →
    m.get? id = if op.status.isFinal then none else some op

/-- A memory holds the unfinished operations of a pipeline, each once and in queue order for every
snapshot, and nothing else. -/
structure Core.IsAllOf (c : Core) (m : Memory) : Prop where
  found : ∀ id : OperationId, m.get? id = c.unfinished? id
  listed : ∀ snapshot : Nat, m.recordsAt snapshot = c.outstandingAt snapshot

theorem Memory.recordsAt_of_size_eq_zero {m : Memory} (indexed : m.Indexed) (empty : m.size = 0)
    (snapshot : Nat) : m.recordsAt snapshot = [] := by
  refine List.eq_nil_iff_forall_not_mem.mpr fun op member => ?_
  have known := indexed.filed snapshot op member
  have unknown : m.snapshotOf = ∅ := Std.ExtTreeMap.eq_empty_iff_size_eq_zero.mpr empty
  simp [unknown] at known

theorem Core.Mirrored.isAllOf {c : Core} {start m : Memory} (mirrored : c.Mirrored start m)
    (filed : c.Filed) (empty : ∀ snapshot, start.recordsAt snapshot = []) : c.IsAllOf m := by
  have waiting {snapshot : Nat} {record : Operation} (member : record ∈ m.recordsAt snapshot) :
      ∃ op, c.unfinished? record.id = some op := by
    refine Option.ne_none_iff_exists'.mp fun through => ?_
    have initial := (mirrored.others snapshot record member through).2
    rw [empty] at initial
    cases initial
  refine ⟨fun id => ?_, fun snapshot => ?_⟩
  · cases held : c.table[id]? with
    | some op =>
      rw [mirrored.get?_live filed held, unfinished?, held, Option.filter_some]
      cases op.status.isFinal <;> rfl
    | none =>
      rw [unfinished?, held, Option.filter_none]
      cases found : m.get? id with
      | none => rfl
      | some record =>
        obtain ⟨named, snapshot, member⟩ := Memory.mem_of_get? found
        obtain ⟨op, live⟩ := waiting member
        rw [named, unfinished?, held] at live
        cases live
  · rw [← mirrored.records]
    refine (List.filter_eq_self.mpr fun record member => ?_).symm
    obtain ⟨op, live⟩ := waiting member
    rw [live]
    rfl

section Run
variable {σ : Type} [OperationStore σ] [MemoryBacked σ] {names : Names} {algorithm : Algorithm}
  {start : σ} {history : List Entry} {e : Engine σ}

/-- Whatever is called and whichever writes are refused, the store has a copy of every unfinished
operation and no record of a final one. If it was empty at the start, it has nothing else. -/
theorem run_copied (reachable : (memory start).Reachable)
    (run : SoleRun names algorithm start history e) :
    e.core.CopiedTo (memory e.store) ∧
      ((memory start).size = 0 → e.core.IsAllOf (memory e.store)) := by
  have indexed := reachable.indexed
  have mirrored := run.mirrored indexed
  have filed := run.run.sound.filed
  exact ⟨fun id op held => mirrored.get?_live filed held,
    fun empty => mirrored.isAllOf filed (Memory.recordsAt_of_size_eq_zero indexed empty)⟩

/-- A store that refuses to note the start of the first operation. -/
def RefusingStore.firstRefused : RefusingStore :=
  { RefusingStore.empty with refused := Std.ExtTreeSet.ofList [OperationId.ofNat 1] }

/-- A commit of three operations, of which the second is completed and stays live with its graph;
its hold can no longer be written. The latest call is first. -/
def secondCompleted : List Call := [
  .request .first (.setHold (.ofNat 2) (some .first)),
  .request .first (.forceActive (.ofNat 1)),
  .request .first (.complete (.ofNat 2)),
  .request .first
    (.append 1 [.new (.ofNat 1), .new (.ofNat 2), .new (.ofNat 3)] [⟨.ofNat 3, .ofNat 1⟩])]

theorem refused_start_copied :
    let start := RefusingStore.firstRefused
    let run := runOf (.new "uploads" []) .commitGraph start secondCompleted
    (memory start).Reachable ∧ (memory start).size = 0 ∧
      run.2.core.CopiedTo (memory run.2.store) ∧ run.2.core.IsAllOf (memory run.2.store) ∧
      (run.2.core.listed.map fun entry => (entry.id, entry.operation.status)) =
        [(.ofNat 1, .pending), (.ofNat 2, .completed), (.ofNat 3, .pending)] ∧
      ((memory run.2.store).recordsAt 1).map (·.id) = [.ofNat 1, .ofNat 3] := by
  have reachable : (memory RefusingStore.firstRefused).Reachable := Memory.Reachable.empty
  have run := SoleRun.of_calls (.new "uploads" []) .commitGraph RefusingStore.firstRefused
    secondCompleted
  have copied := run_copied reachable run
  exact ⟨reachable, rfl, copied.1, copied.2 rfl, by decide +kernel, by decide +kernel⟩

end Run

end CommitPipeline
