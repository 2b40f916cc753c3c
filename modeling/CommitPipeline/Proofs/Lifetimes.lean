import CommitPipeline.Proofs.Finality
import CommitPipeline.Proofs.Relaunch
import CommitPipeline.Proofs.StoreOwners

/-! Pipelines that follow one another on one memory. A new pipeline takes a dependency for finished
if it is left without a record. That is so if an earlier pipeline has finalized it; but it is so as
well if nobody ever queued it, and the new pipeline may also be one that does not own the record. -/
namespace CommitPipeline

open MemoryBacked (memory)

/-- The name in which an operation was queued last, unless it has been finalized since. -/
def Outstanding (history : List Entry) (id : OperationId) (owner : String) : Prop :=
  ∃ later entry earlier, QueuedLast history id later entry earlier ∧
    owner = entry.before.names.current ∧ ¬ FinalizedIn later id

section Outstanding
variable {history : List Entry} {entry : Entry} {id : OperationId} {owner : String}

theorem not_outstanding_nil : ¬ Outstanding [] id owner := by
  rintro ⟨later, entry, earlier, ⟨split, -, -⟩, -⟩
  simp at split

theorem outstanding_cons : Outstanding (entry :: history) id owner ↔
    entry.Queues id ∧ owner = entry.before.names.current ∨
      ¬ entry.Queues id ∧ entry.finalized? ≠ some id ∧ Outstanding history id owner := by
  constructor
  · rintro ⟨later, queueing, earlier, ⟨split, queues, last⟩, same, unfinished⟩
    cases later with
    | nil =>
      cases split
      exact .inl ⟨queues, same⟩
    | cons newest later =>
      cases split
      rw [finalizedIn_cons, not_or] at unfinished
      refine .inr ⟨last _ List.mem_cons_self, unfinished.1, later, queueing, earlier, ?_, same,
        unfinished.2⟩
      exact ⟨rfl, queues, fun other member => last other (List.mem_cons_of_mem _ member)⟩
  · rintro (⟨queues, same⟩ | ⟨silent, unfinalized, later, queueing, earlier, queued, same, unfinished⟩)
    · exact ⟨[], entry, history, ⟨rfl, queues, List.forall_mem_nil _⟩, same, not_finalizedIn_nil⟩
    · refine ⟨entry :: later, queueing, earlier, queued.cons silent, same, ?_⟩
      rw [finalizedIn_cons, not_or]
      exact ⟨unfinalized, unfinished⟩

/-- What was ever queued has been finalized, or is outstanding in some name. -/
theorem outstanding_of_queued (queued : id ∈ everQueued history) :
    FinalizedIn history id ∨ ∃ owner, Outstanding history id owner := by
  induction history with
  | nil => simp [everQueued] at queued
  | cons entry history ih =>
    rw [finalizedIn_cons]
    rcases Core.mem_everQueued_cons.mp queued with queues | earlier
    · exact .inr ⟨_, outstanding_cons.mpr (.inl ⟨queues, rfl⟩)⟩
    · by_cases queues : entry.Queues id
      · exact .inr ⟨_, outstanding_cons.mpr (.inl ⟨queues, rfl⟩)⟩
      · by_cases finalized : entry.finalized? = some id
        · exact .inl (.inl finalized)
        · refine (ih earlier).imp .inr (Exists.imp fun owner outstanding => ?_)
          exact outstanding_cons.mpr (.inr ⟨queues, finalized, outstanding⟩)

end Outstanding

/-- Pipelines that follow one another on one memory, which is empty at first. Each new one retires
what the batches that the memory has for it leave open, and goes on with any requests. There are two
histories: of what was asked of earlier pipelines, and of the calls of the one that runs. Between two
calls the store may change what it refuses, but not what it holds. -/
inductive Lifetimes {σ : Type} [OperationStore σ] [MemoryBacked σ] :
    List Entry → List Entry → Engine σ → Prop where
  | launch (store : σ) (blank : Memory.empty.SameRecords (memory store)) (names : Names)
      (algorithm : Algorithm) : Lifetimes [] [] ⟨.new names algorithm, store⟩
  | request {past history : List Entry} {e : Engine σ} (run : Lifetimes past history e) (store : σ)
      (kept : (memory e.store).SameRecords (memory store)) (now : Instant) (request : Request) :
      Lifetimes past
        (⟨e.core, .request now request, (Engine.apply ⟨e.core, store⟩ now request).1⟩ :: history)
        (Engine.apply ⟨e.core, store⟩ now request).2
  | relaunch {past history : List Entry} {e : Engine σ} (run : Lifetimes past history e) (store : σ)
      (kept : (memory e.store).SameRecords (memory store)) (names : Names)
      (algorithm : Algorithm) :
      Lifetimes (history ++ past)
        [⟨.new names algorithm, .retireMissing ((memory store).restore names), .ok .empty⟩]
        (Engine.retireMissing ⟨.new names algorithm, store⟩ ((memory store).restore names))

namespace Lifetimes
variable {σ : Type} [OperationStore σ] [MemoryBacked σ] {past history : List Entry} {e : Engine σ}
  {id : OperationId} {owner : String}

theorem run (lives : Lifetimes past history e) :
    Run e.core.names e.core.algorithm history e := by
  have started : ∃ names algorithm, Run names algorithm history e := by
    induction lives with
    | launch store _ names algorithm => exact ⟨names, algorithm, .launch store⟩
    | request _ store _ now request ih =>
      obtain ⟨names, algorithm, run⟩ := ih
      exact ⟨names, algorithm, run.call store (.request now request)⟩
    | relaunch _ store _ names algorithm =>
      exact ⟨names, algorithm, (Run.launch store).call store (.retireMissing _)⟩
  obtain ⟨names, algorithm, run⟩ := started
  rw [run.names_eq, run.algorithm_eq]
  exact run

/-- The memory has records of exactly what is outstanding, each in the name of the pipeline that
queued the operation. -/
theorem holds_iff (lives : Lifetimes past history e) : (memory e.store).Indexed ∧
    ∀ (id : OperationId) (owner : String),
      (memory e.store).Holds id owner ↔ Outstanding (history ++ past) id owner := by
  induction lives with
  | launch store blank =>
    have same := blank.holdsAs Memory.indexed_empty
    refine ⟨same.indexed, fun id owner => (same.holds id owner).trans ?_⟩
    simp [Memory.Holds, Memory.recordsAt, Memory.empty, not_outstanding_nil]
  | @request past history e _ store kept now request ih =>
    have same := kept.holdsAs ih.1
    obtain ⟨indexed, holds⟩ := Engine.apply_holds ⟨e.core, store⟩ now request same.indexed
    refine ⟨indexed, fun id owner => (holds id owner).trans ?_⟩
    rw [List.cons_append, outstanding_cons, same.holds, ih.2]
  | @relaunch past history e _ store kept names algorithm ih =>
    have same := kept.holdsAs ih.1
    refine ⟨same.indexed, fun id owner => ((same.holds id owner).trans (ih.2 id owner)).trans ?_⟩
    rw [List.singleton_append, outstanding_cons]
    simp [Entry.Queues, Entry.queued?, Entry.finalized?, Entry.accepted?]

/-- The first pipeline is asked for something, the latest request given first. -/
theorem of_requests (names : Names) (algorithm : Algorithm) (now : Instant)
    (requests : List Request) :
    Lifetimes [] (runOf names algorithm Memory.empty (requests.map (.request now))).1
      (runOf names algorithm Memory.empty (requests.map (.request now))).2 := by
  induction requests with
  | nil => exact .launch Memory.empty ⟨rfl, rfl⟩ names algorithm
  | cons request earlier ih => exact ih.request _ ⟨rfl, rfl⟩ now request

/-- A pipeline is launched on the memory of another and asked for something. -/
theorem relaunched {old : Engine Memory} (lives : Lifetimes past history old) (names : Names)
    (algorithm : Algorithm) (now : Instant) (requests : List Request) :
    let calls := requests.map (.request now) ++ [.retireMissing (old.store.restore names)]
    Lifetimes (history ++ past) (runOf names algorithm old.store calls).1
      (runOf names algorithm old.store calls).2 := by
  induction requests with
  | nil => exact lives.relaunch old.store ⟨rfl, rfl⟩ names algorithm
  | cons request earlier ih => exact ih.request _ ⟨rfl, rfl⟩ now request

end Lifetimes

/-! ### What a launch takes for finished -/

/-- Whether an operation that a pipeline was given to take up waits for another. -/
def AwaitedIn (history : List Entry) (id : OperationId) : Prop :=
  ∃ entry ∈ history, ∃ batches, entry.call = .retireMissing batches ∧
    ∃ batch ∈ batches, ∃ op ∈ batch.operations, id ∈ op.dependencies

/-- A new pipeline takes for finished what its batches wait for, unless the memory has a record of it
in a name that the pipeline owns. -/
theorem Core.isMissing_new_iff (m : Memory) (names : Names) (algorithm : Algorithm)
    (id : OperationId) : (Core.new names algorithm).IsMissing (m.restore names) id ↔
      (∃ batch ∈ m.restore names, ∃ op ∈ batch.operations, id ∈ op.dependencies) ∧
        ∀ owner, m.Holds id owner → names.owns owner = false := by
  have own {batch : Batch} (listed : batch ∈ m.restore names) :
      (Core.new names algorithm).ownOperations batch = batch.operations := by
    refine List.filter_eq_self.mpr fun op member => ?_
    rw [(Memory.mem_restore.mp listed).2] at member
    exact (List.mem_filter.mp member).2
  have awaited : (∃ batch ∈ m.restore names,
        ∃ op ∈ (Core.new names algorithm).ownOperations batch, id ∈ op.dependencies) ↔
      ∃ batch ∈ m.restore names, ∃ op ∈ batch.operations, id ∈ op.dependencies :=
    exists_congr fun batch => and_congr_right fun listed => by rw [own listed]
  have absent : id ∉ (Core.new names algorithm).table := Std.ExtTreeMap.not_mem_empty
  rw [IsMissing, awaited, and_iff_left absent]
  refine and_congr_right fun _ => ⟨fun none owner => ?_, fun none batch listed op member same => ?_⟩
  · rintro ⟨snapshot, record, member, rfl, rfl⟩
    refine Bool.eq_false_iff.mpr fun owned => ?_
    have inside : record ∈ (m.recordsAt snapshot).filter fun op => names.owns op.pipeline :=
      List.mem_filter.mpr ⟨member, owned⟩
    have listed : ⟨snapshot, _⟩ ∈ m.restore names :=
      Memory.mem_restore.mpr ⟨List.ne_nil_of_mem inside, rfl⟩
    exact none _ listed record (by rw [own listed]; exact inside) rfl
  · rw [own listed, (Memory.mem_restore.mp listed).2] at member
    obtain ⟨stored, owned⟩ := List.mem_filter.mp member
    have foreign := none op.pipeline ⟨batch.snapshot, op, stored, same, rfl⟩
    cases owned.symm.trans foreign

namespace Lifetimes
variable {σ : Type} [OperationStore σ] [MemoryBacked σ] {past history : List Entry} {e : Engine σ}
  {id : OperationId}

/-- What a pipeline took for finished at its launch, told by what its predecessors were asked. -/
theorem retiredIn_iff (lives : Lifetimes past history e) : RetiredIn history id ↔
    AwaitedIn history id ∧ ∀ owner, Outstanding past id owner → e.core.names.owns owner = false := by
  induction lives with
  | launch => simp [RetiredIn, AwaitedIn]
  | @request past history e lives store kept now request ih =>
    have retires : ¬ Entry.Retires ⟨e.core, .request now request,
        (Engine.apply ⟨e.core, store⟩ now request).1⟩ id := by rintro ⟨_, ⟨⟩, -⟩
    have named : (Engine.apply ⟨e.core, store⟩ now request).2.core.names = e.core.names :=
      (Engine.apply_answers ⟨e.core, store⟩ now request lives.run.sound.filed).names
    rw [retiredIn_cons, or_iff_right retires, ih, named]
    simp [AwaitedIn]
  | @relaunch past history e lives store kept names algorithm =>
    have outstanding (owner : String) :
        (memory store).Holds id owner ↔ Outstanding (history ++ past) id owner :=
      ((kept.holdsAs lives.holds_iff.1).holds id owner).trans (lives.holds_iff.2 id owner)
    have missing := Core.isMissing_new_iff (memory store) names algorithm id
    have named : (Engine.retireMissing ⟨.new names algorithm, store⟩
        ((memory store).restore names)).core.names = names := rfl
    simp only [outstanding] at missing
    simpa [RetiredIn, Entry.Retires, AwaitedIn, named] using missing

end Lifetimes

section Lifetimes
variable {σ : Type} [OperationStore σ] [MemoryBacked σ] {past history : List Entry} {e : Engine σ}

/-- What a pipeline takes for final was finalized while it ran, or an operation that it took up waits
for it and it is not outstanding in a name that the pipeline owns. So it was finalized in some
lifetime, or never queued before the launch, or it is another pipeline that has it still to do. -/
theorem final_across_lifetimes (lives : Lifetimes past history e) (id : OperationId) :
    (e.core.isFinalized id = true ↔ FinalizedIn history id ∨
      AwaitedIn history id ∧
        ∀ owner, Outstanding past id owner → e.core.names.owns owner = false) ∧
    (e.core.isFinalized id = true → FinalizedIn (history ++ past) id ∨ id ∉ everQueued past ∨
      ∃ owner, Outstanding past id owner ∧ e.core.names.owns owner = false) ∧
    (e.core.algorithm = .flatGraph → id ∉ e.core.table →
      ∀ op, e.core.readiness.isUnmet op id = !e.core.isFinalized id) := by
  have known : e.core.isFinalized id = true ↔ FinalizedIn history id ∨
      AwaitedIn history id ∧
        ∀ owner, Outstanding past id owner → e.core.names.owns owner = false :=
    lives.run.isFinalized_iff.trans (or_congr_right lives.retiredIn_iff)
  refine ⟨known, fun final => ?_, fun flat absent op => ?_⟩
  · have finalizedAt {part : List Entry} (within : part ⊆ history ++ past)
        (finalized : FinalizedIn part id) : FinalizedIn (history ++ past) id := by
      obtain ⟨entry, member, found⟩ := finalized
      exact ⟨entry, within member, found⟩
    rcases known.mp final with finalized | ⟨-, foreign⟩
    · exact .inl (finalizedAt (List.subset_append_left ..) finalized)
    · by_cases queued : id ∈ everQueued past
      · rcases outstanding_of_queued queued with finalized | ⟨owner, outstanding⟩
        · exact .inl (finalizedAt (List.subset_append_right ..) finalized)
        · exact .inr (.inr ⟨owner, outstanding, foreign owner outstanding⟩)
      · exact .inr (.inl queued)
  · have nothing : e.core.table[id]? = none := Std.ExtTreeMap.getElem?_eq_none absent
    simp only [Readiness.isUnmet, Core.readiness, Core.isFinalized, nothing, flat]
    simp

/-- Two operations, of which the first is completed. The other one waits for it, for one that nobody
has queued, and for one of another pipeline. The latest request is first. -/
def uploadsWithStrays : List Request := [
  .complete (.ofNat 1),
  .append 2 [.new (.ofNat 1),
    (((Operation.new (.ofNat 2)).dependingOn (.ofNat 1)).dependingOn (.ofNat 3)).dependingOn
      (.ofNat 9)] []]

/-- The calls with which a pipeline goes on with batches, the latest first. -/
def resumeCalls (batches : List Batch) : List Call :=
  (batches.reverse.map .restore).map (.request .first) ++ [.retireMissing batches]

theorem strays_taken_for_finished :
    let names : Names := .new "uploads" []
    let documents := runOf (.new "documents" []) .flatGraph Memory.empty
      ([.append 1 [.new (.ofNat 9)] []].map (.request .first))
    let old := runOf names .flatGraph documents.2.store
      (uploadsWithStrays.map (.request .first) ++ [.retireMissing (documents.2.store.restore names)])
    let next := runOf names .flatGraph old.2.store (resumeCalls (old.2.store.restore names))
    let past := old.1 ++ documents.1
    Lifetimes past next.1 next.2 ∧
      (∀ id ∈ [OperationId.ofNat 1, .ofNat 3, .ofNat 9], AwaitedIn next.1 id ∧
        ∀ owner, Outstanding past id owner → next.2.core.names.owns owner = false) ∧
      FinalizedIn past (.ofNat 1) ∧ OperationId.ofNat 3 ∉ everQueued past ∧
      Outstanding past (.ofNat 9) "documents" ∧
      old.2.core.table[OperationId.ofNat 2]?.map old.2.core.readiness.unmet =
        some [OperationId.ofNat 3, OperationId.ofNat 9] ∧
      next.2.core.table[OperationId.ofNat 2]?.map next.2.core.readiness.unmet = some [] := by
  intro names documents old next past
  have first := Lifetimes.of_requests (.new "documents" []) .flatGraph .first
    [.append 1 [.new (.ofNat 9)] []]
  have second : Lifetimes documents.1 old.1 old.2 := by
    have second := first.relaunched names .flatGraph .first uploadsWithStrays
    rwa [List.append_nil] at second
  have lives : Lifetimes past next.1 next.2 := second.relaunched names .flatGraph .first _
  have inferred : ∀ id ∈ [OperationId.ofNat 1, .ofNat 3, .ofNat 9],
      next.2.core.isFinalized id = true ∧ ∀ entry ∈ next.1, entry.finalized? ≠ some id := by
    decide +kernel
  have kept : old.2.store.Holds (.ofNat 9) "documents" := ⟨1, by decide +kernel⟩
  refine ⟨lives, fun id member => ?_, ?_, by decide +kernel, (second.holds_iff.2 _ _).mp kept,
    by decide +kernel, by decide +kernel⟩
  · obtain ⟨final, unfinalized⟩ := inferred id member
    refine ((final_across_lifetimes lives id).1.mp final).resolve_left ?_
    rintro ⟨entry, listed, finalized⟩
    exact unfinalized entry listed finalized
  · unfold FinalizedIn
    decide +kernel

/-- An operation waits for one that no pipeline was ever asked to queue. After a relaunch it waits no
longer, but runs. -/
theorem unknown_taken_for_finished :
    let names : Names := .new "uploads" []
    let waiting := (Operation.new (.ofNat 1)).dependingOn (.ofNat 2)
    let old := runOf names .flatGraph Memory.empty ([.append 1 [waiting] []].map (.request .first))
    let next := runOf names .flatGraph old.2.store (resumeCalls (old.2.store.restore names))
    Lifetimes old.1 next.1 next.2 ∧ old.2.core.readiness.unmet waiting = [OperationId.ofNat 2] ∧
      (next.1.flatMap (·.dispatched)).map (·.id) = [OperationId.ofNat 1] ∧
      ¬ (next.2.core.isFinalized (.ofNat 2) = true → FinalizedIn (next.1 ++ old.1) (.ofNat 2)) := by
  intro names waiting old next
  have first := Lifetimes.of_requests names .flatGraph .first [.append 1 [waiting] []]
  have lives : Lifetimes old.1 next.1 next.2 := by
    have lives := first.relaunched names .flatGraph .first
      ((old.2.store.restore names).reverse.map .restore)
    rwa [List.append_nil] at lives
  refine ⟨lives, by decide +kernel, by decide +kernel, fun claimed => ?_⟩
  obtain ⟨entry, member, finalized⟩ := claimed (by decide +kernel)
  have never : ∀ entry ∈ next.1 ++ old.1, entry.finalized? ≠ some (.ofNat 2) := by decide +kernel
  exact never entry member finalized

end Lifetimes
end CommitPipeline
