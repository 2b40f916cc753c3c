import CommitPipeline.Proofs.Durability

/-! In whose name a memory has its records. A commit that is queued is stored in the name of the
pipeline, a final operation loses its record, and whatever else a pipeline writes leaves to
everybody what they have. -/
namespace CommitPipeline

open MemoryBacked (memory memory_of_refused perform_of_accepted)

namespace Memory
variable {m next : Memory} {id key : OperationId} {owner : String} {snapshot : Nat}
  {change : Operation → Operation} {operations : List Operation} {edges : List Edge}

/-- There is a record of an operation in the name of a pipeline. -/
def Holds (m : Memory) (id : OperationId) (owner : String) : Prop :=
  ∃ snapshot, ∃ record ∈ m.recordsAt snapshot, record.id = id ∧ record.pipeline = owner

theorem holds_update (indexed : m.Indexed) (sameId : ∀ op, (change op).id = op.id)
    (sameOwner : ∀ op, (change op).pipeline = op.pipeline) :
    (m.update key change).2.Holds id owner ↔ m.Holds id owner := by
  have viewed (m : Memory) : m.Holds id owner ↔
      ∃ snapshot, (id, owner) ∈ (m.recordsAt snapshot).map fun op => (op.id, op.pipeline) := by
    simp [Holds]
  rw [viewed, viewed]
  refine exists_congr fun snapshot => ?_
  rw [recordsAt_update indexed, map_changeFirst fun op => by rw [sameId, sameOwner]]

theorem holds_delete (indexed : m.Indexed) :
    (m.delete key).2.Holds id owner ↔ id ≠ key ∧ m.Holds id owner := by
  simp only [Holds, recordsAt_delete indexed, List.mem_filter, decide_eq_true_eq]
  constructor
  · rintro ⟨snapshot, record, ⟨member, different⟩, rfl, same⟩
    exact ⟨different, snapshot, record, member, rfl, same⟩
  · rintro ⟨different, snapshot, record, member, rfl, same⟩
    exact ⟨snapshot, record, ⟨member, different⟩, rfl, same⟩

theorem holds_addEdges (indexed : m.Indexed) (edges : List Edge) :
    (m.addEdges edges).2.Holds id owner ↔ m.Holds id owner := by
  induction edges generalizing m with
  | nil => exact .rfl
  | cons edge rest ih =>
    have same : (m.update edge.operation (·.dependingOn edge.dependsOn)).2.Holds id owner ↔
        m.Holds id owner := holds_update indexed (fun _ => rfl) fun _ => rfl
    have updated := indexed.dependingOn edge
    rw [addEdges]
    split
    · rename_i after succeeded
      rw [succeeded] at same updated
      exact (ih updated).trans same
    · exact same

/-- What is stored replaces the records of the same identifiers. -/
theorem holds_save (indexed : m.Indexed)
    (saved : m.save snapshot operations edges = (.ok (), next))
    (stamped : ∀ op ∈ operations, op.pipeline = owner) {other : String} :
    next.Holds id other ↔ id ∈ operations.map (·.id) ∧ other = owner ∨
      id ∉ operations.map (·.id) ∧ m.Holds id other := by
  rcases save_cases indexed snapshot operations edges with ⟨_, -, stray⟩ | ⟨fitting, -⟩
  · cases saved.symm.trans stray
  rw [save_fitting fitting] at saved
  have stored : next.Holds id other ↔ (m.store snapshot operations).Holds id other := by
    rw [← holds_addEdges indexed.store edges, saved]
  rw [stored]
  simp only [Holds, recordsAt_store indexed.filed, List.mem_append, List.mem_filter]
  constructor
  · rintro ⟨place, record, ⟨member, absent⟩ | new, rfl, rfl⟩
    · exact .inr ⟨by simpa using absent, place, record, member, rfl, rfl⟩
    · split at new
      · exact .inl ⟨List.mem_map_of_mem new, stamped record new⟩
      · cases new
  · rintro (⟨listed, rfl⟩ | ⟨absent, place, record, member, rfl, same⟩)
    · obtain ⟨op, member, rfl⟩ := List.mem_map.mp listed
      exact ⟨snapshot, op, .inr (by rwa [if_pos rfl]), rfl, stamped op member⟩
    · exact ⟨place, record, .inl ⟨member, by simpa using absent⟩, rfl, same⟩

end Memory

/-- A memory in which everybody has what they had in another. -/
structure Memory.HoldsAs (m : Memory) (former : Memory) : Prop where
  indexed : m.Indexed
  holds : ∀ (id : OperationId) (owner : String), m.Holds id owner ↔ former.Holds id owner

theorem Memory.SameRecords.holdsAs {m other : Memory} (same : m.SameRecords other)
    (indexed : m.Indexed) : other.HoldsAs m :=
  ⟨same.indexed indexed, fun id owner => by simp only [Memory.Holds, same.recordsAt]⟩

theorem Memory.HoldsAs.updated {m former next : Memory} {id : OperationId}
    {change : Operation → Operation} (same : m.HoldsAs former)
    (updated : m.update id change = (.ok (), next)) (sameId : ∀ op, (change op).id = op.id)
    (sameOwner : ∀ op, (change op).pipeline = op.pipeline) : next.HoldsAs former := by
  have indexed : (m.update id change).2.Indexed := same.indexed.update sameId
  have holds (other : OperationId) (owner : String) :
      (m.update id change).2.Holds other owner ↔ m.Holds other owner :=
    holds_update same.indexed sameId sameOwner
  rw [updated] at indexed holds
  exact ⟨indexed, fun other owner => (holds other owner).trans (same.holds other owner)⟩

namespace Core
variable {c : Core} {id : OperationId} {now : Instant} {request : Request} {change : Change}
  {m next : Memory}

/-- What a request makes of the records of an operation: it queues the operation, or finalizes it,
or leaves them to their owner. -/
def RecordsFollow (c : Core) (request : Request) (m next : Memory) : Prop :=
  ∀ (id : OperationId) (owner : String), next.Holds id owner ↔
    (∃ graph, request.graph? c.names = some graph ∧ id ∈ graph.members) ∧
        owner = c.names.current ∨
      (¬ ∃ graph, request.graph? c.names = some graph ∧ id ∈ graph.members) ∧
        request.finalized? ≠ some id ∧ m.Holds id owner

theorem RecordsFollow.batch {queue : Queue} {snapshot : Nat} {operations : List Operation}
    {edges : List Edge} (indexed : m.Indexed) (fits : c.BatchFits queue snapshot operations edges)
    (answers : c.BatchAnswers request snapshot operations edges)
    (wrote : ∀ write, (c.queueBatch queue snapshot operations edges).write = some write →
      m.perform write = (.ok (), next))
    (silent : (c.queueBatch queue snapshot operations edges).write = none → next = m) :
    c.RecordsFollow request m next := by
  intro id owner
  have listed : (∃ graph, request.graph? c.names = some graph ∧ id ∈ graph.members) ↔
      id ∈ operations.map (·.id) := by simp [answers.graph]
  rw [listed, answers.final]
  cases empty : operations.isEmpty with
  | true =>
    obtain rfl := List.isEmpty_iff.mp empty
    rw [silent rfl]
    simp
  | false =>
    have saved : m.save snapshot operations edges = (.ok (), next) :=
      Memory.perform_accepted (wrote _ (if_neg (by simp [empty])))
    rw [Memory.holds_save indexed saved fun op member => (fits.stamped op member).1]
    simp

theorem RecordsFollow.deleted (indexed : m.Indexed) (noGraph : request.graph? c.names = none)
    (final : request.finalized? = some id) (deleted : m.delete id = (.ok (), next)) :
    c.RecordsFollow request m next := by
  intro other owner
  have holds : (m.delete id).2.Holds other owner ↔ other ≠ id ∧ m.Holds other owner :=
    Memory.holds_delete indexed
  rw [deleted] at holds
  simp [holds, noGraph, final, eq_comm]

theorem RecordsFollow.kept (noGraph : request.graph? c.names = none) (unfinalized : request.finalized? = none)
    (same : ∀ (id : OperationId) (owner : String), next.Holds id owner ↔ m.Holds id owner) :
    c.RecordsFollow request m next := by
  intro id owner
  simp [same, noGraph, unfinalized]

theorem Admits.recordsFollow (admitted : c.Admits now request change) (indexed : m.Indexed)
    (wrote : ∀ write, change.write = some write → m.perform write = (.ok (), next))
    (silent : change.write = none → next = m) : c.RecordsFollow request m next := by
  have self : m.HoldsAs m := ⟨indexed, fun _ _ => .rfl⟩
  cases admitted with
  | append pushed distinct fresh fit =>
    exact .batch indexed (append_fits pushed distinct fresh fit) append_answers wrote silent
  | restore pushed distinct fresh =>
    exact .batch indexed (restore_fits pushed distinct fresh) restore_answers wrote silent
  | complete | skip =>
    exact .deleted indexed rfl rfl (Memory.perform_accepted (wrote _ rfl))
  | @reset id op delay =>
    cases delay with
    | none =>
      have updated : m.update id ({ · with status := .pending }) = (.ok (), next) :=
        Memory.perform_accepted (wrote _ rfl)
      exact .kept rfl rfl (self.updated updated (fun _ => rfl) fun _ => rfl).holds
    | some delay =>
      have updated : m.update id ({ · with status := .pending, hold := some (now.after delay) }) =
          (.ok (), next) := Memory.perform_accepted (wrote _ rfl)
      exact .kept rfl rfl (self.updated updated (fun _ => rfl) fun _ => rfl).holds
  | @forceActive id =>
    have updated : m.update id ({ · with status := .active }) = (.ok (), next) :=
      Memory.perform_accepted (wrote _ rfl)
    exact .kept rfl rfl (self.updated updated (fun _ => rfl) fun _ => rfl).holds
  | @setHold id op hold =>
    have updated : m.update id ({ · with hold }) = (.ok (), next) :=
      Memory.perform_accepted (wrote _ rfl)
    exact .kept rfl rfl (self.updated updated (fun _ => rfl) fun _ => rfl).holds
  | setLimit | suspend | resume | dispatch =>
    exact .kept rfl rfl fun id owner => by rw [silent rfl]

end Core

namespace Engine
variable {σ : Type} [OperationStore σ] [MemoryBacked σ]

/-- A pass writes statuses only. -/
theorem dispatch_holdsAs (e : Engine σ) (now : Instant) (indexed : (memory e.store).Indexed) :
    (memory (e.dispatch now).2.store).HoldsAs (memory e.store) := by
  have self : (memory e.store).HoldsAs (memory e.store) := ⟨indexed, fun _ _ => .rfl⟩
  rw [dispatch]
  split
  · exact self
  · refine e.start_preserves (P := fun after => (memory after.store).HoldsAs (memory e.store)) _
      ?refused ?accepted self
    case refused =>
      intro after error store id _ performed same
      change (memory store).HoldsAs _
      rw [memory_of_refused same.indexed performed]
      exact same
    case accepted =>
      intro after store id _ performed same
      have updated : (memory after.store).update id ({ · with status := .active }) =
          (.ok (), memory store) := Memory.perform_accepted (perform_of_accepted performed)
      have kept : (memory store).HoldsAs (memory e.store) :=
        same.updated updated (fun _ => rfl) fun _ => rfl
      exact ⟨fun _ => kept, fun _ _ => kept⟩

/-- After a request a record is there in the name of the pipeline that has just queued the operation;
or the operation was neither queued nor finalized, and its record is as it was. -/
theorem apply_holds (e : Engine σ) (now : Instant) (request : Request)
    (indexed : (memory e.store).Indexed) :
    let entry : Entry := ⟨e.core, .request now request, (e.apply now request).1⟩
    let after := memory (e.apply now request).2.store
    after.Indexed ∧ ∀ (id : OperationId) (owner : String), after.Holds id owner ↔
      entry.Queues id ∧ owner = e.core.names.current ∨
        ¬ entry.Queues id ∧ entry.finalized? ≠ some id ∧ (memory e.store).Holds id owner := by
  intro entry after
  have silent (quiet : entry.queued? = none ∧ entry.finalized? = none)
      (same : after = memory e.store) : after.Indexed ∧ ∀ (id : OperationId) (owner : String),
        after.Holds id owner ↔ entry.Queues id ∧ owner = e.core.names.current ∨
          ¬ entry.Queues id ∧ entry.finalized? ≠ some id ∧ (memory e.store).Holds id owner := by
    rw [same]
    exact ⟨indexed, fun id owner => by simp [Entry.Queues, quiet.1, quiet.2]⟩
  rcases e.apply_memory now request indexed with ⟨error, rejected, -, same⟩ | ⟨nothing, idle⟩ |
    ⟨change, store, admitted, wrote, unwritten, applied⟩
  · have unaccepted : entry.accepted? = none := by simp only [entry, rejected, Entry.accepted?]
    exact silent (by simp [Entry.queued?, Entry.finalized?, unaccepted]) same
  · have accepted : entry.accepted? = some request := by simp only [entry, idle, Entry.accepted?]
    obtain ⟨noGraph, unfinalized, -⟩ := Core.idle_quiet nothing
    refine silent ?_ (by simp only [after, idle])
    simp [Entry.queued?, Entry.finalized?, accepted, noGraph, unfinalized, entry]
  · have accepted : entry.accepted? = some request := by
      simp only [entry, applied, Entry.accepted?]
    have indexedNext : (memory store).Indexed := by
      cases writes : change.write with
      | none => rwa [unwritten writes]
      | some write => simpa [wrote write writes] using indexed.perform write
    have follow := admitted.recordsFollow indexed wrote unwritten
    have passed : after.HoldsAs (memory store) := by
      have passed := dispatch_holdsAs ⟨change.core.prune.2, store⟩ now indexedNext
      simpa only [after, applied, finish] using passed
    refine ⟨passed.indexed, fun id owner => (passed.holds id owner).trans ?_⟩
    have found : entry.queued? = request.graph? e.core.names := by
      rw [Entry.queued?, accepted, Option.bind_some]
    have final : entry.finalized? = request.finalized? := by
      rw [Entry.finalized?, accepted, Option.bind_some]
    rw [Entry.Queues, found, final]
    exact follow id owner

end Engine
end CommitPipeline
