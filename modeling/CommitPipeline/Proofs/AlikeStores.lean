import CommitPipeline.Proofs.Relinking
import CommitPipeline.Proofs.StoredRecords
import CommitPipeline.Store.Refusing

/-! Stores that refuse the same writes. Writes are compared without the dependencies of the
operations that they save, and refusals by the kind of their errors. Of a memory only the index
matters to what it refuses, so memories that were given the same operations with other dependencies
are such stores, and remain such when some of the writes never reach them. -/
namespace CommitPipeline

/-- A write without the dependencies of the operations that it saves. -/
def Write.bare : Write → Write
  | .save snapshot operations edges =>
    .save snapshot (operations.map ({ · with dependencies := ∅ })) edges
  | write => write

@[simp] theorem Write.bare_relink (links : Links) (write : Write) :
    (write.relink links).bare = write.bare := by
  cases write with
  | save snapshot operations edges =>
    simp only [relink, bare, List.map_map]
    rfl
  | status | hold | statusAndHold | delete => rfl

/-- Writes that are the same without dependencies are the same, or save the same operations. -/
theorem Write.cases_bare {write twin : Write} (same : write.bare = twin.bare) :
    write = twin ∨ ∃ snapshot edges operations others,
      write = .save snapshot operations edges ∧ twin = .save snapshot others edges ∧
      operations.map (·.id) = others.map (·.id) := by
  cases write with
  | save snapshot operations edges =>
    cases twin with
    | save place others given =>
      simp only [bare, save.injEq] at same
      obtain ⟨rfl, operations_eq, rfl⟩ := same
      refine .inr ⟨snapshot, edges, operations, others, rfl, rfl, ?_⟩
      have ids := congrArg (List.map (·.id)) operations_eq
      simpa only [List.map_map, Function.comp_def] using ids
    | status | hold | statusAndHold | delete => cases same
  | status | hold | statusAndHold | delete =>
    cases twin with
    | save => cases same
    | status | hold | statusAndHold | delete => exact .inl same

/-- The answers to writes that are performed one after the other. -/
def OperationStore.answers {σ : Type} [OperationStore σ] (store : σ) :
    List Write → List (Except Error Unit)
  | [] => []
  | write :: rest => (perform store write).1 :: answers (perform store write).2 rest

/-- Two stores refuse the same writes, with errors of the same kinds, whatever is written. -/
def RefuseAlike {σ τ κ : Type} [OperationStore σ] [OperationStore τ] (kind : Error → κ) (one : σ)
    (other : τ) : Prop :=
  ∀ writes twins : List Write, writes.map (·.bare) = twins.map (·.bare) →
    (OperationStore.answers one writes).map (·.mapError kind) =
      (OperationStore.answers other twins).map (·.mapError kind)

section RefuseAlike
variable {σ τ κ : Type} [OperationStore σ] [OperationStore τ] {kind : Error → κ} {one : σ}
  {other : τ}

/-- Stores that refuse the same writes go on doing so after each of them. -/
theorem RefuseAlike.perform (alike : RefuseAlike kind one other) (write twin : Write)
    (same : write.bare = twin.bare) :
    (OperationStore.perform one write).1.mapError kind =
      (OperationStore.perform other twin).1.mapError kind ∧
    RefuseAlike kind (OperationStore.perform one write).2
      (OperationStore.perform other twin).2 := by
  have together (writes twins : List Write) (bare : writes.map (·.bare) = twins.map (·.bare)) :=
    List.cons.inj (alike (write :: writes) (twin :: twins) (by rw [List.map_cons, same, bare]; rfl))
  exact ⟨(together [] [] rfl).1, fun writes twins bare => (together writes twins bare).2⟩

/-- Stores refuse the same writes if they are related in a way that every write keeps. -/
theorem RefuseAlike.of_related (related : σ → τ → Prop)
    (kept : ∀ one other, related one other → ∀ write twin : Write, write.bare = twin.bare →
      (OperationStore.perform one write).1.mapError kind =
          (OperationStore.perform other twin).1.mapError kind ∧
        related (OperationStore.perform one write).2 (OperationStore.perform other twin).2)
    (start : related one other) : RefuseAlike kind one other := by
  intro writes
  induction writes generalizing one other with
  | nil =>
    intro twins bare
    cases twins with
    | nil => rfl
    | cons twin rest => cases bare
  | cons write rest ih =>
    intro twins bare
    cases twins with
    | nil => cases bare
    | cons twin others =>
      obtain ⟨same, bareRest⟩ := List.cons.inj bare
      obtain ⟨answered, next⟩ := kept one other start write twin same
      rw [OperationStore.answers, List.map_cons, answered, ih next others bareRest]
      rfl

end RefuseAlike

/-! ### Memories -/

/-- Two memories with records of the same operations, which may differ in all else. -/
structure Memory.SameIndex (one other : Memory) : Prop where
  left : one.Indexed
  right : other.Indexed
  snapshotOf : one.snapshotOf = other.snapshotOf
  readOnly : one.readOnly = other.readOnly

namespace Memory.SameIndex
variable {one other : Memory} {write twin : Write}

theorem update (same : one.SameIndex other) (id : OperationId) (change : Operation → Operation)
    (kept : ∀ op, (change op).id = op.id) :
    (one.update id change).1 = (other.update id change).1 ∧
      (one.update id change).2.SameIndex (other.update id change).2 := by
  refine ⟨?_, same.left.update kept, same.right.update kept, ?_, ?_⟩
  · rw [update_answer same.left, update_answer same.right, same.snapshotOf]
  · rw [snapshotOf_update, snapshotOf_update, same.snapshotOf]
  · rw [readOnly_update, readOnly_update, same.readOnly]

theorem delete (same : one.SameIndex other) (id : OperationId) :
    (one.delete id).1 = (other.delete id).1 ∧
      (one.delete id).2.SameIndex (other.delete id).2 := by
  refine ⟨?_, same.left.delete, same.right.delete, ?_, ?_⟩
  · rw [delete_answer, delete_answer, same.snapshotOf]
  · ext1 key
    rw [lookup_delete, lookup_delete, same.snapshotOf]
  · rw [readOnly_delete, readOnly_delete, same.readOnly]

theorem save (same : one.SameIndex other) (snapshot : Nat) (edges : List Edge)
    {operations others : List Operation} (ids : operations.map (·.id) = others.map (·.id)) :
    (one.save snapshot operations edges).1 = (other.save snapshot others edges).1 ∧
      (one.save snapshot operations edges).2.SameIndex (other.save snapshot others edges).2 := by
  have stray : one.strayEdge? (operations.map (·.id)) edges =
      other.strayEdge? (others.map (·.id)) edges := by
    rw [strayEdge?, strayEdge?, ids, same.snapshotOf]
  rcases save_cases same.left snapshot operations edges with
    ⟨edge, found, rejected⟩ | ⟨fitting, saved, left, index, flag⟩
  · rw [rejected, save_stray (stray.symm.trans found)]
    exact ⟨rfl, same⟩
  · rcases save_cases same.right snapshot others edges with
      ⟨edge, found, -⟩ | ⟨-, savedToo, right, indexToo, flagToo⟩
    · cases (stray.symm.trans fitting).symm.trans found
    · refine ⟨saved.trans savedToo.symm, left, right, ?_,
        flag.trans (same.readOnly.trans flagToo.symm)⟩
      rw [index, indexToo]
      ext1 key
      rw [lookup_store, lookup_store, ids, same.snapshotOf]

/-- What a memory refuses is decided by its index, and every write keeps indices alike. -/
theorem perform (same : one.SameIndex other) (bare : write.bare = twin.bare) :
    (one.perform write).1 = (other.perform twin).1 ∧
      (one.perform write).2.SameIndex (other.perform twin).2 := by
  cases locked : one.readOnly with
  | true =>
    rw [perform_locked locked, perform_locked (same.readOnly ▸ locked)]
    exact ⟨rfl, same⟩
  | false =>
    rw [perform_unlocked locked, perform_unlocked (same.readOnly ▸ locked)]
    rcases Write.cases_bare bare with rfl | ⟨snapshot, edges, operations, others, rfl, rfl, ids⟩
    · cases write with
      | save snapshot operations edges => exact same.save snapshot edges rfl
      | status | hold | statusAndHold => exact same.update _ _ fun _ => rfl
      | delete id => exact same.delete id
    · exact same.save snapshot edges ids

end Memory.SameIndex

/-- Stores around memories with the same index refuse the same writes if they refuse the status
writes of the same operations. -/
theorem RefusingStore.refuseAlike {κ : Type} (kind : Error → κ) {one other : RefusingStore}
    (same : one.memory.SameIndex other.memory) (refused : one.refused = other.refused)
    (refusesAll : one.refusesAll = other.refusesAll) : RefuseAlike kind one other := by
  refine .of_related (fun one other : RefusingStore => one.memory.SameIndex other.memory ∧
    one.refused = other.refused ∧ one.refusesAll = other.refusesAll) ?_ ⟨same, refused, refusesAll⟩
  rintro one other ⟨same, refused, refusesAll⟩ write twin bare
  have passed : (one.pass write).1.mapError kind = (other.pass twin).1.mapError kind ∧
      (one.pass write).2.memory.SameIndex (other.pass twin).2.memory ∧
      (one.pass write).2.refused = (other.pass twin).2.refused ∧
      (one.pass write).2.refusesAll = (other.pass twin).2.refusesAll :=
    ⟨congrArg (Except.mapError kind) (same.perform bare).1, (same.perform bare).2, refused,
      refusesAll⟩
  rcases Write.cases_bare bare with rfl | ⟨_, _, _, _, rfl, rfl, -⟩
  · cases write with
    | save | hold | delete => exact passed
    | status id | statusAndHold id =>
      have refuses : one.refuses id = other.refuses id := by
        rw [RefusingStore.refuses, RefusingStore.refuses, refused, refusesAll]
      simp only [OperationStore.perform, RefusingStore.perform, refuses]
      split
      · exact ⟨rfl, same, refused, refusesAll⟩
      · exact passed
  · exact passed

end CommitPipeline
