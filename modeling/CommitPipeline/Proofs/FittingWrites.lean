import CommitPipeline.Proofs.AcceptingStores
import CommitPipeline.Proofs.StoreMirror

/-! What a pipeline writes, and when its store can refuse it. An admitted request writes about
unfinished operations only, so it is never refused by a store that knows them and takes what fits.
The one exception is the hold of a final operation: it is written although the record is gone. -/
namespace CommitPipeline

open OperationStore (Obliges)

namespace Core
variable {c : Core} {start m : Memory} {id : OperationId} {now : Instant} {request : Request}
  {change : Change} {write : Write}

/-- An unlocked memory that mirrors a pipeline has what is unfinished of it. -/
theorem Mirrored.serves (mirrored : c.Mirrored start m) (filed : c.Filed)
    (unlocked : m.readOnly = false) : m.Serves {id | c.Unfinished id} :=
  ⟨mirrored.indexed, unlocked, fun _ ⟨_, held, unfinished⟩ => mirrored.known filed held unfinished⟩

/-- What is unfinished after a request was so before and is not finalized by it, or comes with it. -/
theorem Admits.unfinished_iff (admitted : c.Admits now request change) (filed : c.Filed) :
    change.core.Unfinished id ↔ (request.finalized? ≠ some id ∧ c.Unfinished id) ∨
      ∃ graph, request.graph? c.names = some graph ∧ id ∈ graph.members := by
  by_cases live : id ∈ c.table
  · rw [admitted.unfinished filed live, or_iff_left]
    rintro ⟨graph, brings, member⟩
    exact admitted.queues_fresh brings member live
  · constructor
    · rintro ⟨op, held, -⟩
      exact .inr (admitted.queues_new filed (mem_table.mpr ⟨op, held⟩) live)
    · rintro (⟨-, op, held, -⟩ | ⟨graph, brings, member⟩)
      · exact (live (mem_table.mpr ⟨op, held⟩)).elim
      · exact (admitted.brings brings member).2

/-- The writes of a batch are about its operations and the unfinished ones that its edges start
at. -/
private theorem batch_fits {queue : Queue} {snapshot : Nat} {operations : List Operation}
    {edges : List Edge} (fits : c.BatchFits queue snapshot operations edges)
    (writes : (c.queueBatch queue snapshot operations edges).write = some write) :
    write = .save snapshot operations edges ∧ write.Fits {id | c.Unfinished id} := by
  simp only [queueBatch] at writes
  split at writes
  · cases writes
  · cases writes
    exact ⟨rfl, fun edge member => .inl (fits.outer edge member).2⟩

/-- The write of an admitted request is about unfinished operations, unless it sets the hold of a
final one. -/
theorem Admits.write_fits (admitted : c.Admits now request change)
    (waiting : ∀ id hold, request = .setHold id hold → c.Unfinished id)
    (writes : change.write = some write) : write.Fits {id | c.Unfinished id} := by
  cases admitted with
  | append pushed distinct fresh fit =>
    exact (batch_fits (append_fits pushed distinct fresh fit) writes).2
  | restore pushed distinct fresh =>
    exact (batch_fits (restore_fits pushed distinct fresh) writes).2
  | @complete id op held running =>
    cases writes
    exact ⟨op, held, by rw [running]; rfl⟩
  | @skip id op held unfinished =>
    cases writes
    exact ⟨op, held, unfinished⟩
  | @reset id op delay held running =>
    have unfinished : c.Unfinished id := ⟨op, held, by rw [running]; rfl⟩
    cases delay <;> cases writes <;> exact unfinished
  | @forceActive id op held waits =>
    cases writes
    exact ⟨op, held, by rw [waits]; rfl⟩
  | @setHold id op hold =>
    cases writes
    exact waiting id hold rfl
  | setLimit | suspend | resume | dispatch => cases writes

/-- A store that knew what was unfinished before a request knows after its write what is then. -/
theorem Admits.knownAfter (admitted : c.Admits now request change) (filed : c.Filed)
    (writes : change.write = some write) :
    write.knownAfter {id | c.Unfinished id} = {id | change.core.Unfinished id} := by
  ext id
  rw [Set.mem_ofPred_eq, admitted.unfinished_iff filed]
  cases admitted with
  | append pushed distinct fresh fit =>
    rw [(batch_fits (append_fits pushed distinct fresh fit) writes).1]
    simp [Write.knownAfter, Request.graph?, Request.finalized?, stamp, Function.comp_def]
  | restore pushed distinct fresh =>
    rw [(batch_fits (restore_fits pushed distinct fresh) writes).1]
    simp [Write.knownAfter, Request.graph?, Request.finalized?, ownOperations, stamp]
  | complete | skip =>
    cases writes
    simp [Write.knownAfter, Request.graph?, Request.finalized?, and_comm, eq_comm]
  | @reset _ _ delay =>
    cases delay <;> cases writes <;>
      simp [Write.knownAfter, Request.graph?, Request.finalized?]
  | forceActive | setHold =>
    cases writes
    simp [Write.knownAfter, Request.graph?, Request.finalized?]
  | setLimit | suspend | resume | dispatch => cases writes

/-- A request that writes nothing finishes nothing and brings nothing. -/
theorem Admits.unfinished_of_silent (admitted : c.Admits now request change) (filed : c.Filed)
    (silent : change.write = none) : change.core.Unfinished id ↔ c.Unfinished id := by
  rw [admitted.unfinished_iff filed]
  have empty {queue : Queue} {snapshot : Nat} {operations : List Operation} {edges : List Edge}
      (silent : (c.queueBatch queue snapshot operations edges).write = none) :
      operations = [] := by
    simp only [queueBatch] at silent
    split at silent
    · rename_i none
      exact List.isEmpty_iff.mp none
    · cases silent
  cases admitted with
  | append =>
    have none := List.map_eq_nil_iff.mp (empty silent)
    simp [Request.graph?, Request.finalized?, none]
  | restore =>
    have none := List.map_eq_nil_iff.mp (empty silent)
    rw [ownOperations] at none
    simp [Request.graph?, Request.finalized?, none]
  | complete | skip | forceActive | setHold => cases silent
  | @reset _ _ delay => cases delay <;> cases silent
  | setLimit | suspend | resume | dispatch => simp [Request.graph?, Request.finalized?]

end Core

namespace Engine
variable {σ : Type} [OperationStore σ] {e : Engine σ} {now : Instant} {request : Request}
  {change : Change}

/-- If a store goes on with each write that it takes, then with those of admitted requests it goes on
with what is unfinished after them. -/
theorem knows_written {knows : σ → Set OperationId → Prop}
    (goesOn : ∀ {store next : σ} {known : Set OperationId} {write : Write}, knows store known →
      OperationStore.perform store write = (.ok (), next) → knows next (write.knownAfter known))
    {store : σ} (knew : knows e.store {id | e.core.Unfinished id}) (filed : e.core.Filed)
    (admitted : e.core.Admits now request change)
    (wrote : e.write change.write = (.ok (), { e with store })) :
    knows store {id | change.core.Unfinished id} := by
  cases writes : change.write with
  | none =>
    rw [writes] at wrote
    obtain rfl := store_of_silent wrote
    have same : {id | change.core.Unfinished id} = {id | e.core.Unfinished id} :=
      Set.ext fun id => admitted.unfinished_of_silent filed writes
    exact same ▸ knew
  | some write =>
    rw [writes] at wrote
    exact admitted.knownAfter filed writes ▸ goesOn knew (perform_of_wrote wrote)

/-- What an obliging store takes of an admitted request leaves it obliging. -/
theorem obliges_written {store : σ} (obliges : Obliges e.store {id | e.core.Unfinished id})
    (filed : e.core.Filed) (admitted : e.core.Admits now request change)
    (wrote : e.write change.write = (.ok (), { e with store })) :
    Obliges store {id | change.core.Unfinished id} :=
  knows_written Obliges.goesOn obliges filed admitted wrote

/-- An obliging store takes the write of an admitted request, unless it sets the hold of a final
operation. -/
theorem write_taken (obliges : Obliges e.store {id | e.core.Unfinished id})
    (admitted : e.core.Admits now request change)
    (waiting : ∀ id hold, request = .setHold id hold → e.core.Unfinished id) :
    ∃ store, e.write change.write = (.ok (), { e with store }) := by
  cases writes : change.write with
  | none => exact ⟨e.store, rfl⟩
  | some write =>
    obtain ⟨store, performed⟩ := obliges.takes (admitted.write_fits waiting writes)
    exact ⟨store, by rw [Engine.write, performed]⟩

end Engine
end CommitPipeline
