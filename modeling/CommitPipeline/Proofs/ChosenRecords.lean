import Mathlib.Data.List.Find
import CommitPipeline.Proofs.StoredBatches
import CommitPipeline.Proofs.StoreOwners

/-! The records of some operations in a memory that holds others as well. A write about chosen
operations does to their records what it does where they are alone, and a write about others does
nothing to them: neither the records nor their order within a snapshot tell of the others. -/
namespace CommitPipeline

/-- The operations that a write is about. -/
def Write.ids : Write → List OperationId
  | .save _ operations edges => operations.map (·.id) ++ edges.map (·.operation)
  | .status id _ | .hold id _ | .statusAndHold id _ _ | .delete id => [id]

namespace Memory
variable {m one other own : Memory} {chosen : OperationId → Bool} {place : Nat} {write : Write}

/-- The records of chosen operations under a snapshot, in their order. -/
def recordsOf (m : Memory) (chosen : OperationId → Bool) (place : Nat) : List Operation :=
  (m.recordsAt place).filter fun op => chosen op.id

theorem chosen_of_mem {op : Operation} (member : op ∈ m.recordsOf chosen place) :
    chosen op.id = true := (List.mem_filter.mp member).2

/-- What is chosen is in the index if it has a record. -/
theorem mem_index_iff (indexed : m.Indexed) {id : OperationId} (isChosen : chosen id = true) :
    id ∈ m.snapshotOf ↔ ∃ place, ∃ op ∈ m.recordsOf chosen place, op.id = id := by
  rw [Std.ExtTreeMap.mem_iff_isSome_getElem?, Option.isSome_iff_exists]
  constructor
  · rintro ⟨place, known⟩
    obtain ⟨op, member, rfl⟩ := indexed.backed id place known
    exact ⟨place, op, List.mem_filter.mpr ⟨member, isChosen⟩, rfl⟩
  · rintro ⟨place, op, member, rfl⟩
    exact ⟨place, indexed.filed place op (List.mem_filter.mp member).1⟩

/-! ### What a write does to chosen records -/

theorem recordsOf_update (indexed : m.Indexed) {id : OperationId}
    {change : Operation → Operation} (kept : ∀ op, (change op).id = op.id) :
    (m.update id change).2.recordsOf chosen place =
      changeFirst id change (m.recordsOf chosen place) := by
  rw [recordsOf, recordsAt_update indexed]
  by_cases isChosen : chosen id = true
  · exact filter_changeFirst kept chosen isChosen
  · have absent : ∀ op ∈ m.recordsOf chosen place, op.id ≠ id := by
      intro op member same
      exact isChosen (same ▸ chosen_of_mem member)
    rw [changeFirst_of_absent absent, recordsOf]
    exact filter_changeFirst_other kept chosen (Bool.eq_false_iff.mpr isChosen)

theorem recordsOf_delete (indexed : m.Indexed) {id : OperationId} :
    (m.delete id).2.recordsOf chosen place = (m.recordsOf chosen place).filter (·.id ≠ id) := by
  simp only [recordsOf, recordsAt_delete indexed, List.filter_filter, Bool.and_comm]

theorem recordsOf_store (indexed : m.Indexed) {snapshot : Nat} {operations : List Operation} :
    (m.store snapshot operations).recordsOf chosen place =
      (m.recordsOf chosen place).filter (·.id ∉ operations.map (·.id)) ++
        if snapshot = place then operations.filter fun op => chosen op.id else [] := by
  rw [recordsOf, recordsAt_store indexed.filed, List.filter_append, recordsOf]
  simp only [List.filter_filter, Bool.and_comm]
  split <;> rfl

/-- The records with the dependencies of edges added to them, one edge after the other. -/
def joined (edges : List Edge) (records : List Operation) : List Operation :=
  edges.foldl (fun records edge => changeFirst edge.operation
    (fun op => { op with dependencies := op.dependencies.insert edge.dependsOn }) records) records

theorem recordsOf_addEdges {edges : List Edge} (indexed : m.Indexed)
    (known : ∀ edge ∈ edges, edge.operation ∈ m.snapshotOf) :
    (m.addEdges edges).2.recordsOf chosen place = joined edges (m.recordsOf chosen place) := by
  induction edges generalizing m with
  | nil => rfl
  | cons edge rest ih =>
    rw [addEdges_cons indexed (known edge List.mem_cons_self),
      ih (indexed.dependingOn edge) (known_updated known),
      recordsOf_update indexed fun op => (rfl : (op.dependingOn edge.dependsOn).id = op.id)]
    rfl

/-- What an accepted write makes of the chosen records of a snapshot. -/
def effect (chosen : OperationId → Bool) (place : Nat) (records : List Operation) :
    Write → List Operation
  | .save snapshot operations edges =>
    joined edges (records.filter (·.id ∉ operations.map (·.id)) ++
      if snapshot = place then operations.filter fun op => chosen op.id else [])
  | .status id status => changeFirst id ({ · with status }) records
  | .hold id hold => changeFirst id ({ · with hold }) records
  | .statusAndHold id status hold => changeFirst id ({ · with status, hold }) records
  | .delete id => records.filter (·.id ≠ id)

theorem recordsOf_perform (indexed : m.Indexed) (done : (m.perform write).1 = .ok ()) :
    (m.perform write).2.recordsOf chosen place =
      effect chosen place (m.recordsOf chosen place) write := by
  have unlocked := unlocked_of_ok done
  rw [perform_unlocked unlocked] at done ⊢
  cases write with
  | save snapshot operations edges =>
    simp only at done ⊢
    rcases save_cases indexed snapshot operations edges with ⟨_, -, stray⟩ | ⟨fitting, -⟩
    · rw [stray] at done
      cases done
    · rw [save_fitting fitting, recordsOf_addEdges indexed.store (known_store snapshot fitting),
        recordsOf_store indexed]
      rfl
  | status | hold | statusAndHold => exact recordsOf_update indexed fun _ => rfl
  | delete => exact recordsOf_delete indexed

theorem readOnly_perform (indexed : m.Indexed) (write : Write) :
    (m.perform write).2.readOnly = m.readOnly := by
  unfold Memory.perform
  split
  · rfl
  · cases write with
    | save snapshot operations edges =>
      simp only
      rcases save_cases indexed snapshot operations edges with ⟨_, -, stray⟩ | ⟨-, -, -, -, flag⟩
      · rw [stray]
      · exact flag
    | status | hold | statusAndHold => exact readOnly_update ..
    | delete => exact readOnly_delete ..

/-- A write about others does nothing to chosen records. -/
theorem effect_of_others (others : ∀ id ∈ write.ids, chosen id = false)
    (m : Memory) (place : Nat) :
    effect chosen place (m.recordsOf chosen place) write = m.recordsOf chosen place := by
  have absent {id : OperationId} (isOther : chosen id = false) :
      ∀ op ∈ m.recordsOf chosen place, op.id ≠ id := by
    intro op member same
    have isChosen := chosen_of_mem member
    rw [same, isOther] at isChosen
    cases isChosen
  cases write with
  | save snapshot operations edges =>
    simp only [Write.ids, List.mem_append, List.mem_map] at others
    have noneSaved : operations.filter (fun op => chosen op.id) = [] := by
      refine List.filter_eq_nil_iff.mpr fun op member => ?_
      simp [others op.id (.inl ⟨op, member, rfl⟩)]
    have allKept : (m.recordsOf chosen place).filter (·.id ∉ operations.map (·.id)) =
        m.recordsOf chosen place := by
      refine List.filter_eq_self.mpr fun op member => decide_eq_true fun listed => ?_
      obtain ⟨saved, among, same⟩ := List.mem_map.mp listed
      exact absent (others saved.id (.inl ⟨saved, among, rfl⟩)) op member same.symm
    have edges_idle (later : List Edge) (among : ∀ edge ∈ later, edge ∈ edges) :
        joined later (m.recordsOf chosen place) = m.recordsOf chosen place := by
      induction later with
      | nil => rfl
      | cons edge rest ih =>
        have isOther := others edge.operation (.inr ⟨edge, among edge List.mem_cons_self, rfl⟩)
        rw [joined, List.foldl_cons, changeFirst_of_absent (absent isOther)]
        exact ih fun later member => among later (List.mem_cons_of_mem _ member)
    simp only [effect, noneSaved, allKept, ite_self, List.append_nil]
    exact edges_idle edges fun edge => id
  | status id | hold id | statusAndHold id =>
    exact changeFirst_of_absent (absent (others id List.mem_cons_self))
  | delete id =>
    refine List.filter_eq_self.mpr fun op member => decide_eq_true ?_
    exact absent (others id List.mem_cons_self) op member

/-! ### Two memories with the same records of the chosen operations -/

/-- Two memories that have the same records of chosen operations, snapshot by snapshot in the same
order. -/
structure Agree (chosen : OperationId → Bool) (one other : Memory) : Prop where
  left : one.Indexed
  right : other.Indexed
  readOnly : one.readOnly = other.readOnly
  records : ∀ place, one.recordsOf chosen place = other.recordsOf chosen place

theorem Agree.known_iff (agree : Agree chosen one other) {id : OperationId}
    (isChosen : chosen id = true) : id ∈ one.snapshotOf ↔ id ∈ other.snapshotOf := by
  rw [mem_index_iff agree.left isChosen, mem_index_iff agree.right isChosen]
  simp only [agree.records]

/-- A write about chosen operations is accepted or refused by both. -/
theorem Agree.answer (agree : Agree chosen one other)
    (within : ∀ id ∈ write.ids, chosen id = true) :
    (one.perform write).1 = (other.perform write).1 := by
  have known {id : OperationId} (isChosen : chosen id = true) :
      one.snapshotOf.contains id = other.snapshotOf.contains id := by
    rw [Bool.eq_iff_iff, Std.ExtTreeMap.contains_iff_mem, Std.ExtTreeMap.contains_iff_mem]
    exact agree.known_iff isChosen
  cases locked : one.readOnly with
  | true =>
    rw [perform_locked locked, perform_locked (agree.readOnly ▸ locked)]
  | false =>
    rw [perform_unlocked locked, perform_unlocked (agree.readOnly ▸ locked)]
    cases write with
    | save snapshot operations edges =>
      simp only [Write.ids, List.mem_append, List.mem_map] at within
      have stray : one.strayEdge? (operations.map (·.id)) edges =
          other.strayEdge? (operations.map (·.id)) edges := by
        refine List.find?_congr fun edge member => ?_
        rw [known (within edge.operation (.inr ⟨edge, member, rfl⟩))]
      simp only
      rcases save_cases agree.left snapshot operations edges with
        ⟨edge, found, rejected⟩ | ⟨fitting, saved, -⟩
      · rw [rejected, save_stray (stray.symm.trans found)]
      · rcases save_cases agree.right snapshot operations edges with
          ⟨edge, found, -⟩ | ⟨-, savedToo, -⟩
        · cases (stray.symm.trans fitting).symm.trans found
        · exact saved.trans savedToo.symm
    | status id | hold id | statusAndHold id =>
      simp only [update_answer agree.left, update_answer agree.right,
        known (within id List.mem_cons_self)]
    | delete id => simp only [delete_answer, known (within id List.mem_cons_self)]

/-- A write about chosen operations does the same to their records in both memories. -/
theorem Agree.perform (agree : Agree chosen one other)
    (within : ∀ id ∈ write.ids, chosen id = true) :
    Agree chosen (one.perform write).2 (other.perform write).2 where
  left := agree.left.perform write
  right := agree.right.perform write
  readOnly := by
    rw [readOnly_perform agree.left, readOnly_perform agree.right, agree.readOnly]
  records place := by
    have same := agree.answer within
    cases answered : (one.perform write).1 with
    | error error =>
      rw [perform_rejected agree.left answered,
        perform_rejected agree.right (same.symm.trans answered), agree.records]
    | ok done =>
      rw [recordsOf_perform agree.left answered,
        recordsOf_perform agree.right (same.symm.trans answered), agree.records]

/-- A write about others leaves the chosen records of a memory as they are. -/
theorem Agree.perform_others (agree : Agree chosen one own)
    (others : ∀ id ∈ write.ids, chosen id = false) :
    Agree chosen (one.perform write).2 own where
  left := agree.left.perform write
  right := agree.right
  readOnly := by rw [readOnly_perform agree.left, agree.readOnly]
  records place := by
    cases answered : (one.perform write).1 with
    | error error => rw [perform_rejected agree.left answered, agree.records]
    | ok done =>
      rw [recordsOf_perform agree.left answered, effect_of_others others, agree.records]

/-- Whatever is stored in a name of a pipeline is a chosen operation. -/
def Tagged (names : Names) (chosen : OperationId → Bool) (m : Memory) : Prop :=
  ∀ (id : OperationId) (tag : String), m.Holds id tag → names.owns tag = true → chosen id = true

/-- Memories that hold the same for a pipeline return the same to it. -/
theorem restore_congr {names : Names}
    (same : ∀ place, (one.recordsAt place).filter (fun op => names.owns op.pipeline) =
      (other.recordsAt place).filter fun op => names.owns op.pipeline) :
    one.restore names = other.restore names := by
  refine Batch.ascending_ext (one.restore_ascending names) (other.restore_ascending names) ?_
  intro batch
  rw [mem_restore, mem_restore, same]

theorem Agree.restore_eq {names : Names} (agree : Agree chosen one other)
    (left : Tagged names chosen one) (right : Tagged names chosen other) :
    one.restore names = other.restore names := by
  have narrowed {m : Memory} (tagged : Tagged names chosen m) (place : Nat) :
      (m.recordsAt place).filter (fun op => names.owns op.pipeline) =
        (m.recordsOf chosen place).filter fun op => names.owns op.pipeline := by
    rw [recordsOf, List.filter_filter]
    refine List.filter_congr fun op member => ?_
    by_cases owned : names.owns op.pipeline = true
    · rw [owned, tagged op.id op.pipeline ⟨place, op, member, rfl, rfl⟩ owned, Bool.true_and]
    · rw [Bool.eq_false_iff.mpr owned, Bool.false_and]
  refine restore_congr fun place => ?_
  rw [narrowed left, narrowed right, agree.records]

end Memory
end CommitPipeline
