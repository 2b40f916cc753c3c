import CommitPipeline.Proofs.Durability
import CommitPipeline.Proofs.TakingUp

/-! A pipeline that is launched anew goes on where an earlier one was stopped. The memory returns
what was left to do, graph by graph; the new pipeline takes the batches up one after the other; and
what it cannot find among them was finished, or had never been there. -/
namespace CommitPipeline

/-- The calls by which a new pipeline is suspended and filled with batches. -/
def relaunchCalls (now : Instant) (count : Nat) (times : List Instant) (batches : List Batch) :
    List Call :=
  .request now (.suspend count) :: .retireMissing batches :: restoreCalls times batches

/-- Every identifier that calls have queued. -/
def everQueued (history : List Entry) : List OperationId :=
  (history.filterMap (·.queued?)).flatMap (·.members)

/-- A pipeline goes on with all that an earlier one had left to do, and with nothing else. -/
structure Core.ContinuedBy (old c : Core) (next : Names) : Prop where
  names : c.names = next
  graphs : c.queue.graphs = old.queue.graphs.map old.remaining
  operations : ∀ id : OperationId,
    c.table[id]? = (old.unfinished? id).map (·.handedTo next)
  unmet : ∀ (id : OperationId) (op : Operation), old.unfinished? id = some op →
    c.readiness.unmet (op.handedTo next) = old.readiness.unmet op

/-! ### What had been queued before -/

/-- Whatever was ever queued is live, or known to be final. -/
def Core.Remembers (c : Core) (history : List Entry) : Prop :=
  ∀ id ∈ everQueued history, id ∈ c.table ∨ id ∈ c.retired

namespace Core
variable {c old after : Core} {id : OperationId} {now : Instant} {request : Request}
  {history : List Entry} {entry : Entry}

theorem mem_everQueued_cons : id ∈ everQueued (entry :: history) ↔
    (∃ graph, entry.queued? = some graph ∧ id ∈ graph.members) ∨ id ∈ everQueued history := by
  rw [everQueued, List.filterMap_cons]
  cases entry.queued? with
  | none => simp [everQueued]
  | some graph => simp [everQueued]

theorem Remembers.quiet (remembers : c.Remembers history) (noGraph : entry.queued? = none)
    (table : after.table = c.table) (retired : ∀ id ∈ c.retired, id ∈ after.retired) :
    after.Remembers (entry :: history) := by
  intro id member
  rw [mem_everQueued_cons, noGraph] at member
  rcases member with ⟨_, ⟨⟩, -⟩ | earlier
  · rw [table]
    exact (remembers id earlier).imp_right (retired id)

theorem Remembers.answered {answer : Except Error Step} (remembers : c.Remembers history)
    (filed : c.Filed) (answers : c.Answers now request answer after) :
    after.Remembers (⟨c, .request now request, answer⟩ :: history) := by
  cases answers with
  | rejected error => exact remembers.quiet rfl rfl fun _ => id
  | idle idle => exact remembers.quiet (idle_quiet idle).1 rfl fun _ => id
  | @accepted change operations admitted dispatches =>
    have edited : ∀ id ∈ everQueued
        (⟨c, .request now request, .ok ⟨operations, change.core.settledEvents change.events
          operations⟩⟩ :: history), id ∈ change.core.table ∨ id ∈ change.core.retired := by
      intro id member
      rcases mem_everQueued_cons.mp member with ⟨graph, found, listed⟩ | earlier
      · obtain ⟨-, op, held, -⟩ := admitted.brings found listed
        exact .inl (mem_table.mpr ⟨op, held⟩)
      · rcases remembers id earlier with live | retired
        · obtain ⟨op, held⟩ := mem_table.mp live
          obtain ⟨later, held, -⟩ := admitted.forward filed held
          exact .inl (mem_table.mpr ⟨later, held⟩)
        · exact .inr (admitted.retired ▸ retired)
    intro id member
    rw [mem_settled_table (filed.admitted admitted) dispatches, settled_retired,
      mem_retired_pruned]
    by_cases drained : id ∈ change.core.drainedMembers
    · exact .inr (.inl drained)
    · exact (edited id member).imp (fun live => ⟨live, drained⟩) .inr

end Core

theorem Run.remembers {σ : Type} [OperationStore σ] {names : Names} {algorithm : Algorithm}
    {history : List Entry} {e : Engine σ} (run : Run names algorithm history e) :
    e.core.Remembers history := by
  induction run with
  | launch store => exact List.forall_mem_nil _
  | @call history e earlier store call ih =>
    have filed := earlier.sound.filed
    cases call with
    | request now request =>
      exact ih.answered filed (Engine.apply_answers ⟨e.core, store⟩ now request filed)
    | retireMissing batches =>
      exact ih.quiet rfl rfl fun id member => Core.mem_retireMissing.mpr (.inl member)

namespace Core
variable {c old : Core} {store : Memory} {id : OperationId} {op : Operation} {next : Names}
  {history : List Entry}

/-- The dependencies that the batches of an earlier pipeline leave open. -/
theorem Leaves.isMissing (leaves : old.Leaves store next) (named : c.names = next)
    (blank : c.table = ∅) (found : old.unfinished? id = some op) {dependency : OperationId}
    (depends : dependency ∈ op.dependencies) (through : old.unfinished? dependency = none) :
    c.IsMissing (old.queue.graphs.map old.outstanding) dependency := by
  refine ⟨?_, ?_, by simp [blank]⟩
  · obtain ⟨graph, queued, member, -⟩ := leaves.filed.graph_of (unfinished?_eq_some.mp found).1
    refine ⟨old.outstanding graph, List.mem_map_of_mem queued, op, ?_, depends⟩
    rw [leaves.owned named graph]
    exact List.mem_filterMap.mpr ⟨id, member, found⟩
  · intro batch member other own same
    obtain ⟨graph, queued, rfl⟩ := List.mem_map.mp member
    rw [leaves.owned named graph] at own
    obtain ⟨key, -, held⟩ := List.mem_filterMap.mp own
    have keyed := leaves.filed.keyed key other (unfinished?_eq_some.mp held).1
    rw [← same, keyed, held] at through
    cases through

/-- Whoever takes up all that a pipeline had left goes on with it. What an operation waits for does
not change: a dependency that is not taken up was final, or is known to have been. -/
theorem TakesUp.continues (leaves : old.Leaves store next)
    (takes : c.TakesUp old next finished old.queue.graphs)
    (remembers : old.Remembers history)
    (appended : ∀ (id : OperationId) (op : Operation), old.table[id]? = some op →
      ∀ dependency ∈ op.dependencies, dependency ∈ everQueued history)
    (missing : ∀ (id : OperationId) (op : Operation), old.unfinished? id = some op →
      ∀ dependency ∈ op.dependencies, old.unfinished? dependency = none → dependency ∈ finished) :
    old.ContinuedBy c next := by
  have lookup (id : OperationId) : c.table[id]? = (old.unfinished? id).map (·.handedTo next) := by
    rw [takes.table]
    split
    · rfl
    · rename_i absent
      cases found : old.unfinished? id with
      | none => rfl
      | some op =>
        obtain ⟨graph, queued, member, -⟩ := leaves.filed.graph_of (unfinished?_eq_some.mp found).1
        exact (absent (List.mem_flatMap.mpr ⟨graph, queued, member⟩)).elim
  refine ⟨takes.names, takes.queued, lookup, fun id op found => ?_⟩
  refine List.filter_congr fun dependency member => ?_
  have depends : dependency ∈ op.dependencies := Std.ExtTreeSet.mem_toList.mp member
  have here := lookup dependency
  simp only [Readiness.isUnmet, readiness, takes.algorithm, takes.retired]
  cases waits : old.unfinished? dependency with
  | some other =>
    obtain ⟨held, unfinished⟩ := unfinished?_eq_some.mp waits
    rw [waits, Option.map_some] at here
    simp only [here, held, unfinished]
    cases old.algorithm <;> rfl
  | none =>
    rw [waits, Option.map_none] at here
    have known := Std.ExtTreeSet.contains_iff_mem.mpr (missing id op found dependency depends waits)
    simp only [here, known]
    cases held : old.table[dependency]? with
    | some other =>
      simp only [unfinished?_eq_none.mp waits other held]
      cases old.algorithm <;> simp
    | none =>
      have queued := appended id op (unfinished?_eq_some.mp found).1 dependency depends
      have retired : dependency ∈ old.retired := by
        refine (remembers dependency queued).resolve_left fun live => ?_
        obtain ⟨other, live⟩ := mem_table.mp live
        cases held.symm.trans live
      simp only [Std.ExtTreeSet.contains_iff_mem.mpr retired]

end Core

/-! ### The relaunch -/

theorem Core.Answers.names {c after : Core} {now : Instant} {request : Request}
    {answer : Except Error Step} (answers : c.Answers now request answer after) :
    after.names = c.names := by
  cases answers with
  | rejected | idle => rfl
  | accepted admitted => exact (settled_names ..).trans admitted.names

theorem Run.names_eq {σ : Type} [OperationStore σ] {names : Names} {algorithm : Algorithm}
    {history : List Entry} {e : Engine σ} (run : Run names algorithm history e) :
    e.core.names = names := by
  induction run with
  | launch store => rfl
  | @call history e earlier store call ih =>
    cases call with
    | retireMissing batches => exact ih
    | request now request =>
      exact (Engine.apply_answers ⟨e.core, store⟩ now request earlier.sound.filed).names.trans ih

section Relaunch
variable {names next : Names} {algorithm : Algorithm} {start store : Memory}
  {history : List Entry} {old : Engine Memory}

/-- What a run leaves in its memory is there for a pipeline that is launched with its name. -/
theorem SoleRun.leaves (run : SoleRun names algorithm start history old)
    (reachable : start.Reachable) (empty : start.restore names = [])
    (kept : old.store.SameRecords store) (owner : next.owns names.current = true)
    (single : ∀ batch ∈ store.batches, ∀ record ∈ batch.operations,
      next.owns record.pipeline = true → record.pipeline = names.current) :
    old.core.Leaves store next ∧
      store.restore next = old.core.queue.graphs.map old.core.outstanding := by
  have sound := run.run.sound
  have named := run.run.names_eq
  have mirrored : old.core.Mirrored start store :=
    (run.mirrored reachable.indexed).of_sameRecords kept
  rw [← named] at owner
  have noneOwn : ∀ snapshot, ∀ record ∈ start.recordsAt snapshot,
      record.pipeline ≠ old.core.names.current := by
    intro snapshot record member same
    have own : record ∈ (start.recordsAt snapshot).filter fun op => names.owns op.pipeline :=
      List.mem_filter.mpr ⟨member, Names.owns_iff.mpr (.inl (named ▸ same))⟩
    have listed : ⟨snapshot, _⟩ ∈ start.restore names :=
      Memory.mem_restore.mpr ⟨List.ne_nil_of_mem own, rfl⟩
    rw [empty] at listed
    cases listed
  have onlyOwn : ∀ snapshot, ∀ record ∈ store.recordsAt snapshot,
      next.owns record.pipeline = true → record.pipeline = old.core.names.current := by
    intro snapshot record member owned
    obtain ⟨batch, listed, -, inside⟩ := Memory.exists_batch member
    rw [named]
    exact single batch listed record inside owned
  have owned := mirrored.owned_records sound.filed owner noneOwn onlyOwn
  refine ⟨⟨sound.filed, sound.busy, owner, fun snapshot record other => ?_⟩,
    sound.filed.restore_eq sound.busy owned⟩
  obtain ⟨member, foreign⟩ := List.mem_filter.mp other
  cases found : old.core.unfinished? record.id with
  | none => rfl
  | some op =>
    obtain rfl := mirrored.record_eq sound.filed member found
    rw [sound.filed.owner record.id record (Core.unfinished?_eq_some.mp found).1, owner] at foreign
    cases foreign

/-- A pipeline without work that has been suspended. -/
def Core.suspendedNew (names : Names) (algorithm : Algorithm) (count : Nat) : Core :=
  { Core.new names algorithm with suspendCount := min (0 + count) maxCount }

theorem Core.isSuspended_suspendedNew (names : Names) (algorithm : Algorithm) {count : Nat}
    (positive : count ≠ 0) : (suspendedNew names algorithm count).isSuspended = true := by
  have room : 0 < maxCount := by decide
  have above : 0 < min (0 + count) maxCount := by omega
  exact decide_eq_true above

theorem Engine.suspend_new (next : Names) (algorithm : Algorithm) (store : Memory) (now : Instant)
    {count : Nat} (positive : count ≠ 0) :
    let e : Engine Memory := ⟨.new next algorithm, store⟩
    (∃ step, (e.apply now (.suspend count)).1 = .ok step) ∧
      (e.apply now (.suspend count)).2 =
        ⟨(Core.suspendedNew next algorithm count).noteActivity.2, store⟩ := by
  intro e
  have decided : e.core.changeFor now (.suspend count) =
      .ok (some ⟨none, .suspendedNew next algorithm count, .suspendCount⟩) := by
    simp only [Core.changeFor, if_neg positive]
    rfl
  have busy : (Core.suspendedNew next algorithm count).Busy := List.forall_mem_nil _
  have silent : e.write none = (.ok (), ⟨e.core, store⟩) := rfl
  exact apply_suspended decided busy (Core.isSuspended_suspendedNew next algorithm positive) silent

/-- A suspended pipeline without work has taken up nothing yet. -/
theorem Core.takesUp_new (old : Core) (next : Names) {count : Nat} (positive : count ≠ 0)
    (batches : List Batch) :
    let fresh := (Core.suspendedNew next old.algorithm count).noteActivity.2.retireMissing batches
    fresh.TakesUp old next fresh.retired [] where
  filed := (filed_new next old.algorithm).of_continues rfl rfl rfl (.refl _)
  names := rfl
  algorithm := rfl
  suspended := isSuspended_suspendedNew next old.algorithm positive
  retired := rfl
  queued := rfl
  latest := nofun
  table _ := Std.ExtTreeMap.getElem?_empty

/-- Relaunching loses nothing. Whatever an earlier pipeline had left to do, a new one under its
name, or one that took over its name, gets it back from the memory: every call succeeds, graphs and
operations are the same but for their status and their owner, each operation waits for the same
dependencies, and the records of other pipelines are untouched. -/
theorem relaunch_complete (reachable : start.Reachable) (empty : start.restore names = [])
    (run : SoleRun names algorithm start history old)
    (appended : ∀ (id : OperationId) (op : Operation), old.core.table[id]? = some op →
      ∀ dependency ∈ op.dependencies, dependency ∈ everQueued history)
    (kept : old.store.SameRecords store) (unlocked : store.readOnly = false)
    (owner : next.owns names.current = true)
    (single : ∀ batch ∈ store.batches, ∀ record ∈ batch.operations,
      next.owns record.pipeline = true → record.pipeline = names.current)
    {count : Nat} (positive : count ≠ 0) (now : Instant) {times : List Instant}
    (timed : times.length = (store.restore next).length) :
    let relaunched := Engine.calls ⟨.new next algorithm, store⟩
      (relaunchCalls now count times (store.restore next))
    (∀ answer ∈ relaunched.1, ∃ step, answer = .ok step) ∧
      old.core.ContinuedBy relaunched.2.core next ∧
      ∀ snapshot, relaunched.2.store.othersAt next snapshot = store.othersAt next snapshot := by
  obtain ⟨leaves, returned⟩ := run.leaves reachable empty kept owner single
  have algorithm_eq := run.run.algorithm_eq
  subst algorithm_eq
  let fresh : Engine Memory := ⟨.new next old.core.algorithm, store⟩
  let ready : Engine Memory := ⟨(Core.suspendedNew next old.core.algorithm
    count).noteActivity.2.retireMissing (store.restore next), store⟩
  obtain ⟨accepted, suspended⟩ := Engine.suspend_new next old.core.algorithm store now positive
  have readied :
      (fresh.apply now (.suspend count)).2.retireMissing (store.restore next) = ready := by
    rw [suspended]
    rfl
  have takes : ready.core.TakesUp old.core next ready.core.retired [] :=
    old.core.takesUp_new next positive (store.restore next)
  have indexed := ((run.mirrored reachable.indexed).of_sameRecords kept).indexed
  have spares : ready.store.Spares store next := ⟨indexed, unlocked, fun _ => rfl⟩
  have missing : ∀ (id : OperationId) (op : Operation), old.core.unfinished? id = some op →
      ∀ dependency ∈ op.dependencies, old.core.unfinished? dependency = none →
        dependency ∈ ready.core.retired := by
    intro id op found dependency depends through
    rw [Core.mem_retireMissing, returned]
    exact .inr (leaves.isMissing rfl rfl found depends through)
  have lengths : times.length = old.core.queue.graphs.length := by
    rw [timed, returned, List.length_map]
  obtain ⟨restored, taken, spared⟩ := ready.calls_restore leaves rfl takes spares lengths
  have continued := taken.continues leaves run.run.remembers appended missing
  rw [← returned, ← readied] at restored continued spared
  refine ⟨?_, continued, spared.others⟩
  rintro answer (_ | ⟨_, _ | ⟨_, member⟩⟩)
  · exact accepted
  · exact ⟨.empty, rfl⟩
  · exact restored answer member

/-- A memory with a record of another pipeline. -/
def sharedMemory : Memory :=
  (Memory.empty.perform (.save 1 [{ Operation.new (.ofNat 9) with pipeline := "documents" }] [])).2

/-- Three commits, the latest call first. The last one is through; of the first one an operation is
final and another runs. The operation of the second waits for one of each kind. -/
def interruptedUploads : List Call := [
  .request .first (.complete (.ofNat 5)),
  .request .first (.complete (.ofNat 1)),
  .request .first (.append 3 [.new (.ofNat 5)] []),
  .request .first (.append 2
    [(((Operation.new (.ofNat 4)).dependingOn (.ofNat 1)).dependingOn (.ofNat 3)).dependingOn
      (.ofNat 5)] []),
  .request .first (.append 1 [.new (.ofNat 1), .new (.ofNat 2), .new (.ofNat 3)]
    [⟨.ofNat 3, .ofNat 1⟩])]

theorem renamed_relaunch_complete :
    let next : Names := .new "sync" ["uploads"]
    let old := runOf (.new "uploads" []) .flatGraph sharedMemory interruptedUploads
    let relaunched := Engine.calls ⟨.new next .flatGraph, old.2.store⟩
      (relaunchCalls .first 1 [.first, .first] (old.2.store.restore next))
    (∀ answer ∈ relaunched.1, ∃ step, answer = .ok step) ∧
      old.2.core.ContinuedBy relaunched.2.core next ∧
      (∀ snapshot, relaunched.2.store.othersAt next snapshot =
        old.2.store.othersAt next snapshot) ∧
      relaunched.2.core.queue.graphs = [⟨1, [.ofNat 2, .ofNat 3]⟩, ⟨2, [.ofNat 4]⟩] ∧
      relaunched.2.core.retired.toList = [.ofNat 1, .ofNat 5] ∧
      (relaunched.2.store.othersAt next 1).map (·.id) = [.ofNat 9] := by
  intro next old relaunched
  have run := SoleRun.of_calls (.new "uploads" []) .flatGraph sharedMemory interruptedUploads
  have reachable : sharedMemory.Reachable := .write .empty _
  have empty : sharedMemory.restore (.new "uploads" []) = [] :=
    List.isEmpty_iff.mp (by decide +kernel)
  have listed : ∀ entry ∈ old.2.core.table.toList, ∀ dependency ∈ entry.2.dependencies.toList,
      dependency ∈ everQueued old.1 := by decide +kernel
  have appended : ∀ (id : OperationId) (op : Operation), old.2.core.table[id]? = some op →
      ∀ dependency ∈ op.dependencies, dependency ∈ everQueued old.1 :=
    fun id op held dependency depends =>
      listed (id, op) (Std.ExtTreeMap.mem_toList_iff_getElem?_eq_some.mpr held) dependency
        (Std.ExtTreeSet.mem_toList.mpr depends)
  have timed : [Instant.first, .first].length = (old.2.store.restore next).length := by
    decide +kernel
  obtain ⟨accepted, continued, others⟩ := relaunch_complete reachable empty run appended ⟨rfl, rfl⟩
    (by decide +kernel) (by decide +kernel : next.owns "uploads" = true) (by decide +kernel)
    Nat.one_ne_zero .first timed
  exact ⟨accepted, continued, others, by decide +kernel, by decide +kernel, by decide +kernel⟩

end Relaunch
end CommitPipeline
