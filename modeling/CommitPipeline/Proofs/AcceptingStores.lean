import Mathlib.Data.Set.Insert
import CommitPipeline.Proofs.Pass
import CommitPipeline.Proofs.StoredRecords

/-! Stores that accept whatever a pipeline has to write. Such a store takes new operations, and for
those that it knows it takes a new status and deletes them; a memory that is not locked is one, and
takes whatever fits what it has. Over such a store a pass starts every operation that it has a slot
for. -/
namespace CommitPipeline

namespace Write

/-- A write is about known operations: each edge starts at one, or in the batch. -/
def Fits (known : Set OperationId) : Write → Prop
  | .save _ operations edges =>
    ∀ edge ∈ edges, edge.operation ∈ known ∨ edge.operation ∈ operations.map (·.id)
  | .status id _ | .hold id _ | .statusAndHold id _ _ | .delete id => id ∈ known

/-- What is known once a write has been made. -/
def knownAfter (known : Set OperationId) : Write → Set OperationId
  | .save _ operations _ => known ∪ {id | id ∈ operations.map (·.id)}
  | .delete id => known \ {id}
  | .status _ _ | .hold _ _ | .statusAndHold _ _ _ => known

end Write

namespace OperationStore
variable {σ : Type} [OperationStore σ] {store next : σ} {known : Set OperationId}
  {id : OperationId} {write : Write}

/-- The writes that are accepted of stores that know some operations, and what the stores know after
them. -/
structure Serving (serves : σ → Set OperationId → Prop) : Prop where
  save : ∀ {store known}, serves store known → ∀ snapshot operations,
    (perform store (.save snapshot operations [])).1 = .ok () ∧
      serves (perform store (.save snapshot operations [])).2
        (known ∪ {id | id ∈ operations.map (·.id)})
  status : ∀ {store known}, serves store known → ∀ id ∈ known, ∀ status,
    (perform store (.status id status)).1 = .ok () ∧
      serves (perform store (.status id status)).2 known
  delete : ∀ {store known}, serves store known → ∀ id ∈ known,
    (perform store (.delete id)).1 = .ok () ∧ serves (perform store (.delete id)).2 (known \ {id})

/-- The store knows some operations, and goes on accepting what is written of them. -/
def Accepts (store : σ) (known : Set OperationId) : Prop :=
  ∃ serves : σ → Set OperationId → Prop, Serving serves ∧ serves store known

theorem Accepts.save (accepts : Accepts store known) (snapshot : Nat)
    (operations : List Operation) : ∃ next,
      perform store (.save snapshot operations []) = (.ok (), next) ∧
        Accepts next (known ∪ {id | id ∈ operations.map (·.id)}) := by
  obtain ⟨serves, serving, serve⟩ := accepts
  obtain ⟨done, next⟩ := serving.save serve snapshot operations
  exact ⟨_, Prod.ext done rfl, serves, serving, next⟩

theorem Accepts.status (accepts : Accepts store known) (member : id ∈ known) (status : Status) :
    ∃ next, perform store (.status id status) = (.ok (), next) ∧ Accepts next known := by
  obtain ⟨serves, serving, serve⟩ := accepts
  obtain ⟨done, next⟩ := serving.status serve id member status
  exact ⟨_, Prod.ext done rfl, serves, serving, next⟩

theorem Accepts.delete (accepts : Accepts store known) (member : id ∈ known) :
    ∃ next, perform store (.delete id) = (.ok (), next) ∧ Accepts next (known \ {id}) := by
  obtain ⟨serves, serving, serve⟩ := accepts
  obtain ⟨done, next⟩ := serving.delete serve id member
  exact ⟨_, Prod.ext done rfl, serves, serving, next⟩

/-- Stores that know some operations and take every write that fits. With each write that they take
they go on, whether or not they had to take it. -/
structure Obliging (serves : σ → Set OperationId → Prop) : Prop where
  takes : ∀ {store known}, serves store known → ∀ write : Write, write.Fits known →
    (perform store write).1 = .ok ()
  goesOn : ∀ {store known}, serves store known → ∀ write : Write,
    (perform store write).1 = .ok () → serves (perform store write).2 (write.knownAfter known)

/-- The store knows some operations, and takes every write that fits, now and later. -/
def Obliges (store : σ) (known : Set OperationId) : Prop :=
  ∃ serves : σ → Set OperationId → Prop, Obliging serves ∧ serves store known

theorem Obliges.takes (obliges : Obliges store known) (fits : write.Fits known) :
    ∃ next, perform store write = (.ok (), next) := by
  obtain ⟨serves, obliging, serve⟩ := obliges
  exact ⟨_, Prod.ext (obliging.takes serve write fits) rfl⟩

theorem Obliges.goesOn (obliges : Obliges store known)
    (performed : perform store write = (.ok (), next)) :
    Obliges next (write.knownAfter known) := by
  obtain ⟨serves, obliging, serve⟩ := obliges
  have later := obliging.goesOn serve write (congrArg Prod.fst performed)
  rw [performed] at later
  exact ⟨serves, obliging, later⟩

/-- Whatever a pass has to write fits. -/
theorem Obliges.accepts (obliges : Obliges store known) : Accepts store known := by
  obtain ⟨serves, obliging, serve⟩ := obliges
  have both {store : σ} {known : Set OperationId} (serve : serves store known) (write : Write)
      (fits : write.Fits known) :=
    have taken := obliging.takes serve write fits
    And.intro taken (obliging.goesOn serve write taken)
  exact ⟨serves, ⟨fun serve snapshot operations =>
      both serve (.save snapshot operations []) (List.forall_mem_nil _),
    fun serve id member status => both serve (.status id status) member,
    fun serve id member => both serve (.delete id) member⟩, serve⟩

end OperationStore

open OperationStore (Accepts Obliges)

namespace Memory
variable {m : Memory} {known : Set OperationId}

/-- An unlocked memory with records of some operations. -/
structure Serves (m : Memory) (known : Set OperationId) : Prop where
  indexed : m.Indexed
  unlocked : m.readOnly = false
  recorded : ∀ id ∈ known, id ∈ m.snapshotOf

/-- An unlocked memory takes every write about what it has. -/
theorem Serves.takes (serves : m.Serves known) (write : Write) (fits : write.Fits known) :
    (m.perform write).1 = .ok () := by
  have contains {id : OperationId} (member : id ∈ known) : m.snapshotOf.contains id = true :=
    Std.ExtTreeMap.contains_iff_mem.mpr (serves.recorded id member)
  have updated {id : OperationId} {change : Operation → Operation} (member : id ∈ known) :
      (m.update id change).1 = .ok () := by
    rw [update_answer serves.indexed, if_pos (contains member)]
  rw [perform_unlocked serves.unlocked]
  cases write with
  | status | hold | statusAndHold => exact updated fits
  | delete id =>
    change (m.delete id).1 = .ok ()
    rw [delete_answer, if_pos (contains fits)]
  | save snapshot operations edges =>
    have fitting : m.strayEdge? (operations.map (·.id)) edges = none := by
      refine List.find?_eq_none.mpr fun edge member => ?_
      rcases fits edge member with recorded | listed
      · simp [contains recorded]
      · simp [listed]
    rcases save_cases serves.indexed snapshot operations edges with ⟨_, stray, -⟩ | ⟨-, saved, -⟩
    · cases fitting.symm.trans stray
    · exact saved

/-- What a memory takes it has afterwards, besides what it had. -/
theorem Serves.goesOn (serves : m.Serves known) (write : Write)
    (taken : (m.perform write).1 = .ok ()) :
    (m.perform write).2.Serves (write.knownAfter known) := by
  have updated {id : OperationId} {change : Operation → Operation}
      (kept : ∀ op, (change op).id = op.id) : (m.update id change).2.Serves known := by
    refine ⟨serves.indexed.update kept, ?_, fun other inside => ?_⟩
    · rw [readOnly_update, serves.unlocked]
    · rw [snapshotOf_update]
      exact serves.recorded other inside
  rw [perform_unlocked serves.unlocked] at taken ⊢
  cases write with
  | status id status => exact updated fun op => (rfl : { op with status }.id = op.id)
  | hold id hold => exact updated fun op => (rfl : { op with hold }.id = op.id)
  | statusAndHold id status hold =>
    exact updated fun op => (rfl : { op with status, hold }.id = op.id)
  | delete id =>
    refine ⟨serves.indexed.delete, ?_, fun other ⟨inside, different⟩ => ?_⟩
    · rw [readOnly_delete, serves.unlocked]
    · rw [Std.ExtTreeMap.mem_iff_isSome_getElem?, lookup_delete, if_neg (Ne.symm different),
        ← Std.ExtTreeMap.mem_iff_isSome_getElem?]
      exact serves.recorded other inside
  | save snapshot operations edges =>
    change (m.save snapshot operations edges).1 = .ok () at taken
    change (m.save snapshot operations edges).2.Serves _
    rcases save_cases serves.indexed snapshot operations edges with
      ⟨_, -, refused⟩ | ⟨-, -, indexed, index, flag⟩
    · rw [refused] at taken
      cases taken
    · refine ⟨indexed, flag.trans serves.unlocked, fun id member => ?_⟩
      rw [index, Std.ExtTreeMap.mem_iff_isSome_getElem?, lookup_store]
      split
      · rfl
      · rename_i absent
        exact Std.ExtTreeMap.mem_iff_isSome_getElem?.mp
          (serves.recorded id (member.resolve_right absent))

theorem Serves.obliges (serves : m.Serves known) : Obliges m known :=
  ⟨Serves, ⟨Serves.takes, Serves.goesOn⟩, serves⟩

theorem Serves.accepts (serves : m.Serves known) : Accepts m known := serves.obliges.accepts

end Memory

namespace Engine
variable {σ : Type} [OperationStore σ] {known : Set OperationId}

/-- Over an accepting store the slots go to the first operations that are offered. -/
theorem start_accepted (e : Engine σ) (free : Nat) {ids : List OperationId}
    (keyed : e.core.table.Keyed) (live : ∀ id ∈ ids, id ∈ e.core.table)
    (accepts : Accepts e.store known) (recorded : ∀ id ∈ ids, id ∈ known) :
    (e.start ids free).1.map (·.id) = ids.take free ∧
      Accepts (e.start ids free).2.store known := by
  induction ids generalizing e free with
  | nil =>
    rw [start]
    exact ⟨List.take_nil.symm, accepts⟩
  | cons id rest ih =>
    cases free with
    | zero =>
      rw [start]
      exact ⟨rfl, accepts⟩
    | succ free =>
      obtain ⟨op, held⟩ := mem_table.mp (live id List.mem_cons_self)
      obtain ⟨store, performed, next⟩ :=
        accepts.status (recorded id List.mem_cons_self) .active
      have named := keyed id op held
      obtain ⟨started, after⟩ := ih ⟨e.core.start { op with status := .active }, store⟩ free
        keyed.insert
        (fun other member => Std.ExtTreeMap.mem_insert.mpr
          (.inr (live other (List.mem_cons_of_mem _ member))))
        next fun other member => recorded other (List.mem_cons_of_mem _ member)
      rw [start]
      simp only [performed, held]
      exact ⟨congrArg₂ List.cons named started, after⟩

theorem dispatch_accepted (e : Engine σ) (now : Instant) (keyed : e.core.table.Keyed)
    (accepts : Accepts e.store known)
    (recorded : ∀ (id : OperationId) (op : Operation), e.core.table[id]? = some op →
      op.status = .pending → id ∈ known) :
    (e.dispatch now).1.map (·.id) = (e.core.ready now).take e.core.freeSlots ∧
      Accepts (e.dispatch now).2.store known := by
  rw [dispatch]
  split
  · rename_i noSlots
    rw [noSlots]
    exact ⟨rfl, accepts⟩
  · refine e.start_accepted _ keyed (fun id member => ?_) accepts fun id member => ?_
    · obtain ⟨op, held, -⟩ := Readiness.pending_of_ready member
      exact mem_table.mpr ⟨op, held⟩
    · obtain ⟨op, held, pending⟩ := Readiness.pending_of_ready member
      exact recorded id op held pending

end Engine
end CommitPipeline
