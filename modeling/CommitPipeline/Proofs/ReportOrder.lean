import CommitPipeline.Proofs.EarlyPasses
import CommitPipeline.Proofs.FittingWrites
import CommitPipeline.Proofs.StoreOrder
import CommitPipeline.Proofs.TakingUp

/-! The order in which operations are reported as through. Each report changes one operation, and
these changes may be made in any order; what differs are the passes between them. With a slot for
every live operation a pass comes early at most: what it does the pass after the last report would
do. So all orders lead to where all the changes and a single pass lead. -/
namespace CommitPipeline

open MemoryBacked (memory)

namespace Memory
variable {m : Memory} {known : Set OperationId} {id : OperationId}

theorem Serves.markAll (serves : m.Serves known) (ids : List OperationId) :
    (ids.foldl mark m).Serves known := by
  induction ids generalizing m with
  | nil => exact serves
  | cons first rest ih =>
    refine ih ⟨serves.indexed.mark first, ?_, fun id member => ?_⟩
    · rw [mark, readOnly_update, serves.unlocked]
    · rw [mark, snapshotOf_update]
      exact serves.recorded id member

theorem Serves.delete (serves : m.Serves known) (member : id ∈ known) :
    (m.delete id).2.Serves (known \ {id}) := by
  have next := serves.goesOn (.delete id) (serves.takes (.delete id) member)
  rwa [perform_unlocked serves.unlocked] at next

end Memory

namespace Core
variable {c : Core} {id other : OperationId} {status otherStatus : Status}

/-- Changes of two operations, in either order. -/
theorem finalize_comm (c : Core) (different : id ≠ other) :
    ((c.finalize id status).core.finalize other otherStatus).core =
      ((c.finalize other otherStatus).core.finalize id status).core := by
  have table : ((c.finalize id status).core.finalize other otherStatus).core.table =
      ((c.finalize other otherStatus).core.finalize id status).core.table := by
    refine Std.ExtTreeMap.ext_getElem? fun key => ?_
    simp only [lookup_finalize]
    by_cases here : id = key
    · have elsewhere : other ≠ key := fun there => different (here.trans there.symm)
      simp only [if_pos here, if_neg elsewhere]
    · simp only [if_neg here]
  have active : (c.active.erase id).erase other = (c.active.erase other).erase id := by
    refine Std.ExtTreeSet.ext_mem fun key => ?_
    simp only [Std.ExtTreeSet.mem_erase]
    tauto
  exact congrArg₂ (fun table active => { c with table, active }) table active

end Core

namespace Engine
variable {e start : Engine Memory} {now : Instant} {id other : OperationId}
  {status otherStatus : Status} {request : Request} {reports others : List Request}

/-- An operation is through, in memory and in the store; no pass has followed. -/
def concluded (e : Engine Memory) (id : OperationId) (status : Status) : Engine Memory :=
  ⟨(e.core.finalize id status).core, (e.store.delete id).2⟩

/-- A report is taken note of; no pass has followed. -/
def reported (e : Engine Memory) : Request → Engine Memory
  | .complete id => e.concluded id .completed
  | .skip id => e.concluded id .skipped
  | _ => e

/-- The end of a call that starts all that is ready. -/
def passed (e : Engine Memory) (now : Instant) : Engine Memory :=
  ⟨e.core.passed now, (e.core.prune.2.offers now).foldl Memory.mark e.store⟩

/-- There is a slot for every live operation, and a record of every unfinished one. -/
structure Roomy (e : Engine Memory) : Prop where
  core : e.core.Roomy
  serves : e.store.Serves {id | e.core.Unfinished id}

theorem Roomy.passed (roomy : e.Roomy) (now : Instant) : (e.passed now).Roomy where
  core := roomy.core.passed now
  serves := by
    have same : {id | (e.core.passed now).Unfinished id} = {id | e.core.Unfinished id} :=
      Set.ext fun id => Core.unfinished_settled roomy.core.filed (roomy.core.dispatches now)
    change Memory.Serves _ {id | (e.core.passed now).Unfinished id}
    rw [same]
    exact roomy.serves.markAll _

theorem Roomy.concluded (roomy : e.Roomy) (final : status.isFinal = true)
    (unfinished : e.core.Unfinished id) : (e.concluded id status).Roomy where
  core := roomy.core.finalize id final
  serves := by
    have same : {other | (e.core.finalize id status).core.Unfinished other} =
        {other | e.core.Unfinished other} \ {id} :=
      Set.ext fun other => Core.unfinished_finalize final
    change Memory.Serves _ {other | (e.core.finalize id status).core.Unfinished other}
    rw [same]
    exact roomy.serves.delete unfinished

/-- A pass before an operation is through makes no difference to the pass after it. -/
theorem Roomy.passed_concluded (roomy : e.Roomy) (now : Instant) (final : status.isFinal = true)
    (unfinished : e.core.Unfinished id) :
    ((e.passed now).concluded id status).passed now = (e.concluded id status).passed now := by
  have early := (roomy.core.passed now).finalize id final
  have late := roomy.core.finalize id final
  have ahead := (roomy.core.ahead_passed now).finalize final unfinished
  have core := ahead.passed_eq late early
  have marked : (((e.core.passed now).finalize id status).core.prune.2.offers now).foldl Memory.mark
      (((e.core.prune.2.offers now).foldl Memory.mark e.store).delete id).2 =
      ((e.core.finalize id status).core.prune.2.offers now).foldl Memory.mark
        (e.store.delete id).2 := by
    rw [Memory.delete_markAll, ← List.foldl_append]
    exact (Memory.markAll_perm (ahead.offers_perm late.filed early.filed) _).symm
  rw [Engine.passed, Engine.passed, Engine.concluded, Engine.concluded, Engine.passed]
  exact congrArg₂ Engine.mk core marked

/-- With a slot for each and a memory that takes the starts, all that is ready is started. -/
theorem Roomy.dispatch (roomy : e.Roomy) (now : Instant) :
    (Engine.dispatch ⟨e.core.prune.2, e.store⟩ now).1.map (·.id) = e.core.prune.2.offers now ∧
      (Engine.dispatch ⟨e.core.prune.2, e.store⟩ now).2.store = (e.passed now).store := by
  have taken : OperationStore.takenInTurn e.store (e.core.prune.2.ready now) =
      e.core.prune.2.ready now := by
    rw [roomy.serves.indexed.steady.takenInTurn_eq]
    refine List.filter_eq_self.mpr fun id ready => ?_
    obtain ⟨op, held, pending⟩ := Readiness.pending_of_ready ready
    have unfinished := Core.unfinished_of_pending (Core.held_of_pruned held) pending
    rw [Memory.takesStart_eq roomy.serves.indexed, roomy.serves.unlocked,
      Std.ExtTreeMap.contains_iff_mem.mpr (roomy.serves.recorded id unfinished)]
    rfl
  have chosen : (e.core.prune.2.ready now).take e.core.prune.2.freeSlots =
      e.core.prune.2.offers now := by
    rw [Core.freeSlots, Core.offers]
    split
    · rfl
    · have enough := roomy.core.enough now
      rw [Core.pruned_limit, Core.pruned_active]
      exact List.take_of_length_le (by omega)
  have passes := dispatch_taken ⟨e.core.prune.2, e.store⟩ now roomy.core.filed.prune.keyed
    roomy.serves.indexed
  simp only [taken, chosen] at passes
  exact passes

/-! ### Reports -/

theorem reported_eq (finishes : request.finalized? = some id) : ∃ status : Status,
    status.isFinal = true ∧ ∀ e : Engine Memory, e.reported request = e.concluded id status := by
  cases request with
  | complete =>
    cases finishes
    exact ⟨.completed, rfl, fun _ => rfl⟩
  | skip =>
    cases finishes
    exact ⟨.skipped, rfl, fun _ => rfl⟩
  | append | restore | reset | forceActive | setHold | setLimit | suspend | resume | dispatch =>
    cases finishes

theorem reported_of_admits {change : Change} (admitted : e.core.Admits now request change)
    (finishes : request.finalized? = some id) :
    e.core.Unfinished id ∧ change.write = some (.delete id) ∧
      e.reported request = ⟨change.core, (e.store.delete id).2⟩ := by
  cases admitted with
  | complete held running =>
    cases finishes
    exact ⟨⟨_, held, by rw [running]; rfl⟩, rfl, rfl⟩
  | skip held unfinished =>
    cases finishes
    exact ⟨⟨_, held, unfinished⟩, rfl, rfl⟩
  | append | restore | reset | forceActive | setHold | setLimit | suspend | resume | dispatch =>
    cases finishes

theorem unfinished_reported (finishes : request.finalized? = some id) :
    (e.reported request).core.Unfinished other ↔ e.core.Unfinished other ∧ other ≠ id := by
  obtain ⟨status, final, reported⟩ := reported_eq finishes
  rw [reported]
  exact Core.unfinished_finalize final

theorem Roomy.reported (roomy : e.Roomy) (finishes : request.finalized? = some id)
    (unfinished : e.core.Unfinished id) : (e.reported request).Roomy := by
  obtain ⟨status, final, reported⟩ := reported_eq finishes
  rw [reported]
  exact roomy.concluded final unfinished

/-- Reports about different operations, in either order. -/
theorem reported_comm {otherRequest : Request} (e : Engine Memory)
    (finishes : request.finalized? = some id) (finishesOther : otherRequest.finalized? = some other)
    (different : id ≠ other) :
    (e.reported request).reported otherRequest = (e.reported otherRequest).reported request := by
  obtain ⟨status, -, reported⟩ := reported_eq finishes
  obtain ⟨otherStatus, -, otherReported⟩ := reported_eq finishesOther
  rw [reported, reported, otherReported, otherReported]
  exact congrArg₂ Engine.mk (e.core.finalize_comm different) (e.store.delete_comm id other)

/-- A report that is accepted ends in a pass over what it changes. -/
theorem Roomy.apply_report (roomy : e.Roomy) (finishes : request.finalized? = some id)
    (accepted : ∃ step, (e.apply now request).1 = .ok step) :
    e.core.Unfinished id ∧ (e.apply now request).2 = (e.reported request).passed now := by
  obtain ⟨step, accepted⟩ := accepted
  have asks : e.core.changeFor now request ≠ .ok none := fun idle => by
    have quiet := Core.idle_outcome idle
    cases request <;> cases quiet <;> cases finishes
  obtain ⟨change, store, after, carried⟩ := CarriesOut.of_accepted asks accepted
  obtain ⟨unfinished, writes, reported⟩ :=
    reported_of_admits (Core.admits_of_changeFor carried.decided) finishes
  have deleted : e.store.delete id = (.ok (), store) :=
    Memory.perform_accepted (carried.written.1 _ writes)
  have next : (⟨change.core, store⟩ : Engine Memory).Roomy := by
    have roomy := roomy.reported finishes unfinished
    rwa [reported, deleted] at roomy
  obtain ⟨dispatches, started, left⟩ := carried.passed next.core.filed
  obtain ⟨order, marked⟩ := next.dispatch now
  have all : step.dispatched =
      change.core.prune.2.handedOut (change.core.prune.2.offers now) := by
    rw [dispatches.eq_handedOut, ← started]
    exact congrArg _ order
  rw [reported, deleted, carried.ended]
  refine ⟨unfinished, left.trans ?_⟩
  exact congrArg₂ Engine.mk (congrArg _ all) marked

/-- Reports about different operations, none of which is through. -/
structure Awaits (e : Engine Memory) (reports : List Request) : Prop where
  distinct : (reports.map Request.finalized?).Nodup
  unfinished : ∀ request ∈ reports, ∃ id, request.finalized? = some id ∧ e.core.Unfinished id

theorem Awaits.cons (awaits : (e.reported request).Awaits reports)
    (finishes : request.finalized? = some id) (unfinished : e.core.Unfinished id) :
    e.Awaits (request :: reports) where
  distinct := by
    refine List.nodup_cons.mpr ⟨fun again => ?_, awaits.distinct⟩
    obtain ⟨later, member, same⟩ := List.mem_map.mp again
    obtain ⟨other, finishesOther, waiting⟩ := awaits.unfinished later member
    rw [same, finishes, Option.some.injEq] at finishesOther
    exact ((unfinished_reported finishes).mp waiting).2 finishesOther.symm
  unfinished := by
    refine List.forall_mem_cons.mpr ⟨⟨id, finishes, unfinished⟩, fun later member => ?_⟩
    obtain ⟨other, finishesOther, waiting⟩ := awaits.unfinished later member
    exact ⟨other, finishesOther, ((unfinished_reported finishes).mp waiting).1⟩

/-- What awaited reports change does not depend on their order. -/
theorem Awaits.foldl_reported (awaits : e.Awaits reports) (permuted : reports.Perm others) :
    reports.foldl Engine.reported e = others.foldl Engine.reported e := by
  refine permuted.foldl_eq' (fun request member other memberToo e => ?_) e
  obtain ⟨id, finishes, -⟩ := awaits.unfinished request member
  obtain ⟨otherId, finishesOther, -⟩ := awaits.unfinished other memberToo
  by_cases same : id = otherId
  · have once : request = other := List.inj_on_of_nodup_map awaits.distinct member memberToo
      (finishes.trans (same ▸ finishesOther.symm))
    rw [once]
  · exact e.reported_comm finishes finishesOther same

/-- Whether or not a pass has come early, a report that is accepted leads to the same. -/
theorem Roomy.apply_early (roomy : e.Roomy) (early : start = e ∨ start = e.passed now)
    (finishes : request.finalized? = some id)
    (accepted : ∃ step, (start.apply now request).1 = .ok step) :
    e.core.Unfinished id ∧ (start.apply now request).2 = (e.reported request).passed now := by
  rcases early with rfl | rfl
  · exact roomy.apply_report finishes accepted
  · obtain ⟨unfinished, applied⟩ := (roomy.passed now).apply_report finishes accepted
    replace unfinished : e.core.Unfinished id :=
      (Core.unfinished_settled roomy.core.filed (roomy.core.dispatches now)).mp unfinished
    refine ⟨unfinished, ?_⟩
    obtain ⟨status, final, reported⟩ := reported_eq finishes
    rw [applied, reported, reported]
    exact roomy.passed_concluded now final unfinished

/-- Reports that are accepted are awaited, and lead to where all that they change and a single pass
lead. -/
theorem Roomy.calls_reports (roomy : e.Roomy)
    (early : start = e ∧ reports ≠ [] ∨ start = e.passed now)
    (finishing : ∀ request ∈ reports, ∃ id, request.finalized? = some id)
    (accepted : ∀ answer ∈ (start.calls (reports.map (.request now))).1,
      ∃ step, answer = .ok step) :
    e.Awaits reports ∧ (start.calls (reports.map (.request now))).2 =
      (reports.foldl Engine.reported e).passed now := by
  induction reports generalizing e start with
  | nil =>
    obtain ⟨-, nonempty⟩ | rfl := early
    · exact (nonempty rfl).elim
    · exact ⟨⟨.nil, List.forall_mem_nil _⟩, rfl⟩
  | cons request rest ih =>
    obtain ⟨⟨id, finishes⟩, finishing⟩ := List.forall_mem_cons.mp finishing
    obtain ⟨first, later⟩ := List.forall_mem_cons.mp accepted
    obtain ⟨unfinished, reached⟩ := roomy.apply_early (early.imp_left And.left) finishes first
    -- From here on a pass has come early.
    have next := ih (roomy.reported finishes unfinished) (.inr reached) finishing later
    exact ⟨next.1.cons finishes unfinished, next.2⟩

end Engine

section Run
variable {names : Names} {algorithm : Algorithm} {history : List Entry} {e : Engine Memory}

/-- In every state of every run over a memory that takes what is written of the unfinished
operations, if there is a slot for every live one: any reports that are accepted at one instant lead
to the same core and the same memory in every order in which they are accepted. The passes between
them, and what these start, may differ. -/
theorem reports_in_any_order (run : Run names algorithm history e)
    (serves : e.store.Serves {id | e.core.Unfinished id})
    (slots : e.core.table.size ≤ e.core.limit) (now : Instant) {reports others : List Request}
    (finishing : ∀ request ∈ reports, ∃ id, request = .complete id ∨ request = .skip id)
    (permuted : reports.Perm others)
    (accepted : ∀ answer ∈ (e.calls (reports.map (.request now))).1, ∃ step, answer = .ok step)
    (acceptedToo : ∀ answer ∈ (e.calls (others.map (.request now))).1,
      ∃ step, answer = .ok step) :
    (e.calls (reports.map (.request now))).2 = (e.calls (others.map (.request now))).2 := by
  have roomy : e.Roomy := ⟨⟨run.sound.filed, run.sound.tracked, slots⟩, serves⟩
  replace finishing : ∀ request ∈ reports, ∃ id, request.finalized? = some id := by
    intro request member
    obtain ⟨id, rfl | rfl⟩ := finishing request member <;> exact ⟨id, rfl⟩
  have finishingToo : ∀ request ∈ others, ∃ id, request.finalized? = some id :=
    fun request member => finishing request (permuted.mem_iff.mpr member)
  by_cases empty : reports = []
  · subst empty
    rw [permuted.nil_eq]
  · have emptyToo : others ≠ [] := fun none => empty (none ▸ permuted).eq_nil
    obtain ⟨awaits, reached⟩ := roomy.calls_reports (.inl ⟨rfl, empty⟩) finishing accepted
    obtain ⟨-, reachedToo⟩ := roomy.calls_reports (.inl ⟨rfl, emptyToo⟩) finishingToo acceptedToo
    rw [reached, reachedToo, awaits.foldl_reported permuted]

/-- Two commits of two operations each, with a slot for all. The latest call is first. -/
def twoPairs : List Call := [
  .request .first (.append 2 [.new (.ofNat 3), .new (.ofNat 4)] []),
  .request .first (.append 1 [.new (.ofNat 1), .new (.ofNat 2)] []),
  .request .first (.setLimit 4)]

/-- The third operation is skipped when it has been started, or before the commit ahead of it is
through; then only the fourth is started. -/
theorem skipped_before_its_turn :
    let e := (runOf (.new "uploads" []) .commitGraph Memory.empty twoPairs).2
    let reports : List Request := [.complete (.ofNat 1), .complete (.ofNat 2), .skip (.ofNat 3)]
    let inTurn := e.calls (reports.map (.request .first))
    let ahead := e.calls (reports.reverse.map (.request .first))
    inTurn.1.map (·.map fun step => step.dispatched.map (·.id)) =
        [.ok [], .ok [.ofNat 3, .ofNat 4], .ok []] ∧
      ahead.1.map (·.map fun step => step.dispatched.map (·.id)) =
        [.ok [], .ok [], .ok [.ofNat 4]] ∧
      inTurn.2 = ahead.2 := by
  intro e reports inTurn ahead
  have sole : SoleRun (.new "uploads" []) .commitGraph Memory.empty _ e :=
    .of_calls _ _ _ twoPairs
  have serves : e.store.Serves {id | e.core.Unfinished id} :=
    (sole.mirrored Memory.indexed_empty).serves sole.run.sound.filed (by decide +kernel)
  have finishing : ∀ request ∈ reports, ∃ id, request = .complete id ∨ request = .skip id := by
    simp [reports]
  have accepted : inTurn.1.all (·.isOk) = true := by decide +kernel
  have acceptedToo : ahead.1.all (·.isOk) = true := by decide +kernel
  refine ⟨by decide +kernel, by decide +kernel, ?_⟩
  exact reports_in_any_order sole.run serves (by decide +kernel) .first finishing
    (List.reverse_perm reports).symm
    (fun answer member => except_isOk.mp (List.all_eq_true.mp accepted answer member))
    (fun answer member => except_isOk.mp (List.all_eq_true.mp acceptedToo answer member))

end Run
end CommitPipeline
