import CommitPipeline.Pipeline.Launch
import CommitPipeline.Proofs.Progress
import CommitPipeline.Proofs.Slots
import CommitPipeline.Proofs.Transit

/-! Accounting for what has been started. Whatever has a slot is on its way to the worker or with
it, as long as only what is with the worker is reported on. An operation that was activated from
outside is neither, until it is given back and started anew. -/
namespace CommitPipeline

/-- What the worker has been handed and has not reported on since. The notes are given with the
latest first. -/
def withWorker : List Note → List OperationId
  | [] => []
  | .handedOver op :: earlier => op.id :: withWorker earlier
  | .answered entry :: earlier =>
    match entry.outcome? with
    | some id => (withWorker earlier).erase id
    | none => withWorker earlier

namespace Note

/-- The operation that an accepted request finalized. -/
def finalized? (note : Note) : Option OperationId := note.accepted?.bind (·.finalized?)

/-- An accepted request gave a running operation back. -/
def GivesBack (note : Note) (id : OperationId) : Prop :=
  ∃ delay, note.accepted? = some (.reset id delay)

end Note

/-- Notes tell that an operation was started, by a request that gave it back or came after one that
did. -/
def StartedAnew (notes : List Note) (op : Operation) : Prop :=
  ∃ newer note older, notes = newer ++ note :: older ∧ op ∈ note.dispatched ∧
    ∃ one ∈ note :: older, one.GivesBack op.id

section Notes
variable {notes : List Note} {entry : Entry} {id : OperationId} {op : Operation}

theorem withWorker_answered_nodup (distinct : (withWorker notes).Nodup) :
    (withWorker (.answered entry :: notes)).Nodup := by
  rw [withWorker]
  split
  · exact distinct.erase _
  · exact distinct

theorem mem_withWorker_answered (distinct : (withWorker notes).Nodup) :
    id ∈ withWorker (.answered entry :: notes) ↔
      id ∈ withWorker notes ∧ entry.outcome? ≠ some id := by
  rw [withWorker]
  split
  · rename_i other reported
    rw [distinct.mem_erase_iff, reported, and_comm, ne_comm]
    simp
  · rename_i nothing
    simp [nothing]

theorem StartedAnew.cons (anew : StartedAnew notes op) (note : Note) :
    StartedAnew (note :: notes) op := by
  obtain ⟨newer, one, older, rfl, started⟩ := anew
  exact ⟨note :: newer, one, older, rfl, started⟩

theorem outcome_cases (reported : entry.outcome? = some id) :
    (Note.answered entry).finalized? = some id ∨ (Note.answered entry).GivesBack id := by
  obtain ⟨request, accepted, about⟩ := Option.bind_eq_some_iff.mp reported
  cases request with
  | complete | skip => exact .inl (Option.bind_eq_some_iff.mpr ⟨_, accepted, about⟩)
  | reset other delay =>
    cases about
    exact .inr ⟨delay, accepted⟩
  | append | restore | forceActive | setHold | setLimit | suspend | resume | dispatch => cases about

end Notes

namespace Pipeline
variable {σ ω : Type} {p after : Pipeline σ ω} {settings : LaunchSettings}
  {notes later : List Note} {id : OperationId} {op : Operation} {request : Request} {now : Instant}

/-! ### What is on its way and what the worker has -/

/-- Everything that was started has been handed over once or is on its way, and exactly what is on
its way or with the worker has a slot, however many slots there are. -/
structure Balanced (p : Pipeline σ ω) (notes : List Note) : Prop where
  filed : p.engine.core.Filed
  tracked : p.engine.core.Tracked
  alive : p.dispatcher ≠ .ended
  sent : dispatchedIn notes = handedOverIn notes + p.inTransit
  distinct : (p.inTransit.map (·.id) + withWorker notes).Nodup
  slots : ∀ id, id ∈ p.engine.core.active ↔
    id ∈ p.inTransit.map (·.id) + (withWorker notes : Multiset OperationId)

theorem Balanced.nothing (balanced : p.Balanced notes) (retired : IdSet)
    (core : after.engine.core = { p.engine.core with retired })
    (transit : after.inTransit = p.inTransit) (alive : after.dispatcher ≠ .ended) :
    after.Balanced notes := by
  obtain ⟨filed, tracked, -, sent, distinct, slots⟩ := balanced
  refine ⟨?_, ?_, alive, by rwa [transit], by rwa [transit], ?_⟩
  · rw [core]
    exact filed.of_continues rfl rfl rfl (.refl _)
  · rw [core]
    exact ⟨tracked.handedOut, tracked.running, tracked.recovered⟩
  · rw [core, transit]
    exact slots

theorem Balanced.handsOver (balanced : p.Balanced notes)
    (core : after.engine.core = p.engine.core) (transit : after.inTransit + {op} = p.inTransit)
    (alive : after.dispatcher ≠ .ended) : after.Balanced (.handedOver op :: notes) := by
  obtain ⟨filed, tracked, -, sent, distinct, slots⟩ := balanced
  have moved : after.inTransit.map (·.id) +
      (withWorker (.handedOver op :: notes) : Multiset OperationId) =
      p.inTransit.map (·.id) + withWorker notes := by
    rw [← transit, Multiset.map_add, add_assoc]
    rfl
  refine ⟨core ▸ filed, core ▸ tracked, alive, ?_, by rwa [moved], ?_⟩
  · rw [dispatchedIn_cons, handedOverIn_cons, sent, ← transit]
    change 0 + _ = {op} + handedOverIn notes + _
    rw [zero_add]
    abel
  · rw [moved, core]
    exact slots

/-- The pipeline is balanced, and within its limit. -/
structure Accounted (p : Pipeline σ ω) (notes : List Note) : Prop where
  filed : p.engine.core.Filed
  tracked : p.engine.core.Tracked
  alive : p.dispatcher ≠ .ended
  within : p.engine.core.active.size ≤ p.engine.core.limit
  sent : dispatchedIn notes = handedOverIn notes + p.inTransit
  distinct : (p.inTransit.map (·.id) + withWorker notes).Nodup
  slots : ∀ id, id ∈ p.engine.core.active ↔
    id ∈ p.inTransit.map (·.id) + (withWorker notes : Multiset OperationId)

theorem Accounted.balanced (accounted : p.Accounted notes) : p.Balanced notes :=
  ⟨accounted.filed, accounted.tracked, accounted.alive, accounted.sent, accounted.distinct,
    accounted.slots⟩

theorem Balanced.accounted (balanced : p.Balanced notes)
    (within : p.engine.core.active.size ≤ p.engine.core.limit) : p.Accounted notes :=
  ⟨balanced.filed, balanced.tracked, balanced.alive, within, balanced.sent, balanced.distinct,
    balanced.slots⟩

theorem Accounted.nothing (accounted : p.Accounted notes) (retired : IdSet)
    (core : after.engine.core = { p.engine.core with retired })
    (transit : after.inTransit = p.inTransit) (alive : after.dispatcher ≠ .ended) :
    after.Accounted notes := by
  refine (accounted.balanced.nothing retired core transit alive).accounted ?_
  rw [core]
  exact accounted.within

theorem Accounted.handsOver (accounted : p.Accounted notes)
    (core : after.engine.core = p.engine.core) (transit : after.inTransit + {op} = p.inTransit)
    (alive : after.dispatcher ≠ .ended) : after.Accounted (.handedOver op :: notes) := by
  refine (accounted.balanced.handsOver core transit alive).accounted ?_
  rw [core]
  exact accounted.within

/-! ### Activated from outside -/

/-- An operation was activated from outside, and has not been finalized since. Until it is given
back it runs without a slot, and the worker is handed it only when it has been started anew. -/
structure Outside (p : Pipeline σ ω) (later : List Note) (id : OperationId) : Prop where
  runs : (∃ note ∈ later, note.GivesBack id) ∨ p.engine.core.RunsOutside id
  onWay : ∀ op ∈ p.inTransit, op.id = id → StartedAnew later op
  handed : ∀ (newer : List Note) (op : Operation) (between : List Note),
    later = newer ++ .handedOver op :: between → op.id = id → StartedAnew between op

theorem Accounted.outside (accounted : p.Accounted notes) (runs : p.engine.core.RunsOutside id) :
    p.Outside [] id where
  runs := .inr runs
  onWay op moving named := by
    refine (runs.1 ((accounted.slots id).mpr (Multiset.mem_add.mpr (.inl ?_)))).elim
    exact Multiset.mem_map.mpr ⟨op, moving, named⟩
  handed newer op between split := by simp at split

theorem Outside.nothing (outside : p.Outside later id) (retired : IdSet)
    (core : after.engine.core = { p.engine.core with retired })
    (transit : after.inTransit = p.inTransit) : after.Outside later id := by
  obtain ⟨runs, onWay, handed⟩ := outside
  refine ⟨runs.imp_right fun runs => ?_, fun op moving => onWay op (transit ▸ moving), handed⟩
  rw [core]
  exact runs

theorem Outside.handsOver (outside : p.Outside later id)
    (core : after.engine.core = p.engine.core) (transit : after.inTransit + {op} = p.inTransit) :
    after.Outside (.handedOver op :: later) id := by
  obtain ⟨runs, onWay, handed⟩ := outside
  have moving : op ∈ p.inTransit :=
    transit ▸ Multiset.mem_add.mpr (.inr (Multiset.mem_singleton_self op))
  refine ⟨runs.imp ?_ (core ▸ ·), fun other stays named => ?_,
    fun newer other between split named => ?_⟩
  · exact fun ⟨note, member, back⟩ => ⟨note, List.mem_cons_of_mem _ member, back⟩
  · exact (onWay other (transit ▸ Multiset.mem_add.mpr (.inl stays)) named).cons _
  · rcases List.cons_eq_append_iff.mp split with ⟨-, same⟩ | ⟨newer, -, rest⟩
    · cases same
      exact onWay op moving named
    · exact handed newer other between rest named

/-! ### Requests -/

variable [OperationStore σ]

theorem accounted_launch (store : σ) (worker : ω) (now : Instant) :
    Accounted (.launch settings store worker now) [] := by
  let launched : Engine σ := ⟨.new settings.names settings.algorithm, store⟩
  let limited := (launched.apply now (.setLimit settings.limit)).2
  let ready := (limited.apply now (.suspend settings.suspendCount)).2
  have fresh : launched.core.Filed := Core.filed_new ..
  have first := launched.apply_answers now (.setLimit settings.limit) fresh
  have second := limited.apply_answers now (.suspend settings.suspendCount) (first.filed fresh)
  have tracked : ready.core.Tracked := second.tracked (first.filed fresh)
    (first.tracked fresh (Core.tracked_new ..))
  have noOperation (id : OperationId) (op : Operation) : ready.core.table[id]? ≠ some op := by
    intro held
    have shrinks :=
      (first.dwindles fresh trivial).trans (second.dwindles (first.filed fresh) trivial)
    obtain ⟨before, unknown, -⟩ := shrinks.operations id op held
    cases unknown
  have noSlot (id : OperationId) : id ∉ ready.core.active := by
    intro member
    obtain ⟨op, held, -⟩ := tracked.handedOut id member
    exact noOperation id op held
  have noSize : ready.core.active.size = 0 := by
    rw [← Std.ExtTreeSet.length_toList, List.length_eq_zero_iff, List.eq_nil_iff_forall_not_mem]
    exact fun id member => noSlot id (Std.ExtTreeSet.mem_toList.mp member)
  refine ⟨second.filed (first.filed fresh), tracked, nofun, noSize.le.trans (Nat.zero_le _), rfl,
    Multiset.nodup_zero, fun id => iff_of_false (noSlot id) (Multiset.notMem_zero id)⟩

/-- A request finds everything balanced, and leaves it so. Only what is with the worker is reported
on, so what is on its way stays there; what is started had no slot. -/
theorem Balanced.answered (balanced : p.Balanced notes)
    (reported : ∀ id ∈ request.outcome?, id ∈ p.engine.core.active → id ∈ withWorker notes)
    (core : after.engine.core = (p.engine.apply now request).2.core)
    (transit : after.inTransit = p.inTransit + (p.entryFor now request).dispatched)
    (alive : after.dispatcher ≠ .ended) :
    after.Balanced (.answered (p.entryFor now request) :: notes) := by
  obtain ⟨filed, tracked, -, sent, distinct, slots⟩ := balanced
  have answers := Engine.apply_answers p.engine now request filed
  rw [← core] at answers
  obtain ⟨distinctOnWay, distinctWith, apart⟩ := Multiset.nodup_add.mp distinct
  have sent_on : after.inTransit.map (·.id) = p.inTransit.map (·.id) +
      ((p.entryFor now request).dispatched.map (·.id) : List OperationId) := by
    rw [transit, Multiset.map_add]
    rfl
  have onWay {id : OperationId} (moving : id ∈ p.inTransit.map (·.id)) :
      (p.entryFor now request).outcome? ≠ some id := by
    intro about
    have member := (slots id).mpr (Multiset.mem_add.mpr (.inl moving))
    have handed := reported id (Entry.outcome?_eq_some about) member
    exact Multiset.disjoint_left.mp apart moving handed
  -- An operation that is started although it had a slot has given that back in the same request, so
  -- the worker has it no more.
  have started {id : OperationId} (new : id ∈ (p.entryFor now request).dispatched.map (·.id))
      (old : id ∈ p.inTransit.map (·.id) + (withWorker notes : Multiset OperationId)) :
      (p.entryFor now request).outcome? = some id :=
    answers.outcome_of_started filed tracked new ((slots id).mpr old)
  refine ⟨answers.filed filed, answers.tracked filed tracked, alive, ?sent, ?distinct,
    fun id => ?slots⟩
  case sent =>
    rw [transit, dispatchedIn_cons, handedOverIn_cons, sent]
    change _ = 0 + handedOverIn notes + _
    rw [zero_add, add_comm, add_assoc]
    rfl
  case distinct =>
    rw [sent_on, Multiset.nodup_add, Multiset.nodup_add]
    refine ⟨⟨distinctOnWay, answers.started_nodup filed, ?_⟩,
      withWorker_answered_nodup distinctWith, ?_⟩
    · refine Multiset.disjoint_left.mpr fun moving new => onWay moving ?_
      exact started new (Multiset.mem_add.mpr (.inl moving))
    · refine Multiset.disjoint_left.mpr fun outside kept => ?_
      obtain ⟨handed, noOutcome⟩ := (mem_withWorker_answered distinctWith).mp kept
      rcases Multiset.mem_add.mp outside with moving | new
      · exact Multiset.disjoint_left.mp apart moving handed
      · exact noOutcome (started new (Multiset.mem_add.mpr (.inr handed)))
  case slots =>
    rw [sent_on, answers.mem_active, slots, Multiset.mem_add, Multiset.mem_add, Multiset.mem_add,
      Multiset.mem_coe, Multiset.mem_coe, Multiset.mem_coe, mem_withWorker_answered distinctWith]
    constructor
    · rintro (new | ⟨moving | handed, noOutcome⟩)
      · exact .inl (.inr new)
      · exact .inl (.inl moving)
      · exact .inr ⟨handed, noOutcome⟩
    · rintro ((moving | new) | ⟨handed, noOutcome⟩)
      · exact .inr ⟨.inl moving, onWay moving⟩
      · exact .inl new
      · exact .inr ⟨.inr handed, noOutcome⟩

/-- Unless a request lowers the limit, no more is active than it allows. -/
theorem Accounted.answered (accounted : p.Accounted notes)
    (reported : ∀ id ∈ request.outcome?, id ∈ p.engine.core.active → id ∈ withWorker notes)
    (raised : ∀ limit ∈ request.limit?, p.engine.core.limit ≤ limit)
    (core : after.engine.core = (p.engine.apply now request).2.core)
    (transit : after.inTransit = p.inTransit + (p.entryFor now request).dispatched)
    (alive : after.dispatcher ≠ .ended) :
    after.Accounted (.answered (p.entryFor now request) :: notes) := by
  have answers := Engine.apply_answers p.engine now request accounted.filed
  rw [← core] at answers
  exact (accounted.balanced.answered reported core transit alive).accounted
    (answers.active_size_le raised accounted.within)

theorem Outside.answered (outside : p.Outside later id) (filed : p.engine.core.Filed)
    (core : after.engine.core = (p.engine.apply now request).2.core)
    (transit : after.inTransit = p.inTransit + (p.entryFor now request).dispatched)
    (notFinal : (Note.answered (p.entryFor now request)).finalized? ≠ some id) :
    after.Outside (.answered (p.entryFor now request) :: later) id := by
  have answers := Engine.apply_answers p.engine now request filed
  rw [← core] at answers
  set entry := p.entryFor now request with same
  have runs : (∃ note ∈ .answered entry :: later, note.GivesBack id) ∨
      after.engine.core.RunsOutside id ∧ id ∉ entry.dispatched.map (·.id) := by
    by_cases reported : entry.outcome? = some id
    · have back := (outcome_cases reported).resolve_left notFinal
      exact .inl ⟨.answered entry, List.mem_cons_self, back⟩
    · rcases outside.runs with ⟨note, member, back⟩ | runs
      · exact .inl ⟨note, List.mem_cons_of_mem _ member, back⟩
      · exact .inr (answers.runsOutside filed runs reported)
  refine ⟨runs.imp_right And.left, fun op moving named => ?_,
    fun newer op between split named => ?_⟩
  · rw [transit] at moving
    rcases Multiset.mem_add.mp moving with old | new
    · exact (outside.onWay op old named).cons _
    · rcases runs with ⟨note, member, back⟩ | ⟨-, notStarted⟩
      · exact ⟨[], .answered entry, later, rfl, new, note, member, named ▸ back⟩
      · exact (notStarted (List.mem_map.mpr ⟨op, new, named⟩)).elim
  · rcases List.cons_eq_append_iff.mp split with ⟨-, other⟩ | ⟨newer, -, rest⟩
    · cases other
    · exact outside.handed newer op between rest named

end Pipeline

end CommitPipeline
