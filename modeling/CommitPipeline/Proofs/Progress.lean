import Mathlib.Data.Fintype.EquivFin
import Mathlib.Logic.Relation
import Mathlib.Order.WellFounded
import CommitPipeline.Proofs.NextHold
import CommitPipeline.Proofs.Replay
import CommitPipeline.Proofs.TakingUp

/-! Why a pipeline does not get stuck. As long as no unfinished operation waits for itself, be it
through others, one of those that are considered waits for nothing; unless something runs it may be
started, now or when its hold ends. Whatever drives a pipeline on keeps things so: dependencies do
not change, and what is through is remembered. -/
namespace CommitPipeline

instance : Finite OperationId :=
  Finite.of_injective OperationId.value fun one other same => by
    cases one
    cases other
    cases same
    rfl

/-- Nobody waits for themselves, be it through others. -/
def Acyclic (waits : OperationId → OperationId → Prop) : Prop :=
  ∀ id, ¬ Relation.TransGen waits id id

theorem Acyclic.mono {waits fewer : OperationId → OperationId → Prop} (acyclic : Acyclic waits)
    (fewer_waits : ∀ id other, fewer id other → waits id other) : Acyclic fewer :=
  fun id circle => acyclic id (Relation.TransGen.mono fewer_waits id id circle)

/-- Where everybody waits for lower ranks only, nobody waits for themselves. -/
theorem Acyclic.of_rank {waits : OperationId → OperationId → Prop} (rank : OperationId → Nat)
    (falls : ∀ id other, waits id other → rank other < rank id) : Acyclic waits := by
  have lower {id other : OperationId} (chain : Relation.TransGen waits id other) :
      rank other < rank id := by
    induction chain with
    | single direct => exact falls _ _ direct
    | tail _ direct ih => exact Nat.lt_trans (falls _ _ direct) ih
  exact fun id circle => Nat.lt_irrefl _ (lower circle)

/-- Among some of those that wait for each other, one waits for none of them. -/
theorem Acyclic.exists_free {waits : OperationId → OperationId → Prop} (acyclic : Acyclic waits)
    {ids : Set OperationId} (nonempty : ids.Nonempty) :
    ∃ id ∈ ids, ∀ other ∈ ids, ¬ waits id other := by
  have trans : IsTrans OperationId fun other id => Relation.TransGen waits id other :=
    ⟨fun _ _ _ first second => second.trans first⟩
  have irrefl : Std.Irrefl fun other id => Relation.TransGen waits id other := ⟨acyclic⟩
  obtain ⟨id, member, least⟩ := (Finite.wellFounded_of_trans_of_irrefl
    fun other id => Relation.TransGen waits id other).has_min ids nonempty
  exact ⟨id, member, fun other inside direct => least other inside (.single direct)⟩

namespace Core
variable {c after later : Core} {id other : OperationId} {op : Operation} {graph : Graph}
  {now : Instant} {request : Request} {change : Change} {operations : List Operation}

/-- An unfinished operation has another unfinished one among its dependencies. -/
def WaitsFor (c : Core) (id other : OperationId) : Prop :=
  c.Unfinished other ∧
    ∃ op, c.table[id]? = some op ∧ op.status.isFinal = false ∧ other ∈ op.dependencies

/-- The same among the members of one graph. -/
def WaitsWithin (c : Core) (graph : Graph) (id other : OperationId) : Prop :=
  id ∈ graph.members ∧ other ∈ graph.members ∧ c.WaitsFor id other

/-- The dependencies that the algorithm heeds lead nowhere in circles. When all graphs are
considered, they do not lead to unknown operations either, since those would be waited for. -/
def Orderly (c : Core) : Prop :=
  match c.algorithm with
  | .commitGraph => ∀ graph ∈ c.queue.graphs, Acyclic (c.WaitsWithin graph)
  | .flatGraph => Acyclic c.WaitsFor ∧
    ∀ (id : OperationId) (op : Operation), c.table[id]? = some op →
      ∀ dependency ∈ op.dependencies, dependency ∈ c.table ∨ dependency ∈ c.retired

theorem orderly_of_rank (rank : OperationId → Nat)
    (falls : ∀ id other, c.WaitsFor id other → rank other < rank id)
    (known : c.algorithm = .flatGraph → ∀ (id : OperationId) (op : Operation),
      c.table[id]? = some op → ∀ dependency ∈ op.dependencies,
        dependency ∈ c.table ∨ dependency ∈ c.retired) : c.Orderly := by
  have acyclic := Acyclic.of_rank rank falls
  unfold Orderly
  split
  · exact fun _ _ => acyclic.mono fun _ _ within => within.2.2
  · rename_i atOnce
    exact ⟨acyclic, known atOnce⟩

/-! ### An operation that waits for nothing -/

/-- A considered operation that only a hold keeps from being started. -/
structure Startable (c : Core) (id : OperationId) (op : Operation) : Prop where
  considered : ∃ graph ∈ c.readiness.candidates, id ∈ graph.members
  held : c.table[id]? = some op
  pending : op.status = .pending
  inCandidateGraph : c.readiness.inCandidateGraph op = true
  met : ∀ dependency ∈ op.dependencies, c.readiness.isUnmet op dependency = false

theorem Startable.ready (startable : c.Startable id op) (free : op.isHeld now = false) :
    id ∈ c.ready now := by
  obtain ⟨graph, candidate, member⟩ := startable.considered
  exact Readiness.mem_ready.mpr ⟨graph, candidate, member, op, startable.held,
    Readiness.isReady_iff.mpr ⟨startable.pending, startable.inCandidateGraph, free, startable.met⟩⟩

theorem Startable.nextHold (startable : c.Startable id op) (waits : op.isHeld now = true) :
    (c.nextHold now).isSome = true := by
  obtain ⟨release, held, ahead⟩ := Operation.isHeld_iff.mp waits
  obtain ⟨graph, candidate, member⟩ := startable.considered
  obtain ⟨entry, considered, named, rfl⟩ :=
    Readiness.considered_of_mem candidate member startable.held
  have holds : c.Holds id release := ⟨entry, considered, named, startable.pending, held⟩
  obtain ⟨deadline, found, -⟩ := (nextHold_covers now holds).mpr ahead
  rw [found]
  rfl

theorem pending_of_unfinished (unfinished : op.status.isFinal = false)
    (still : op.status ≠ .active) : op.status = .pending := by
  cases stands : op.status with
  | pending => rfl
  | active => exact (still stands).elim
  | completed | skipped =>
    rw [stands] at unfinished
    cases unfinished

/-- In an orderly pipeline with something in its queue, something runs or may be started. -/
theorem Orderly.exists_startable (orderly : c.Orderly) (filed : c.Filed) (busy : c.Busy)
    (queued : c.queue.graphs ≠ [])
    (still : ∀ (id : OperationId) (op : Operation), c.table[id]? = some op → op.status ≠ .active) :
    ∃ id op, c.Startable id op := by
  obtain ⟨oldest, rest, graphs⟩ := List.exists_cons_of_ne_nil queued
  have first : oldest ∈ c.queue.graphs := by rw [graphs]; exact List.mem_cons_self
  obtain ⟨member, listed, unfinished⟩ := busy oldest first
  unfold Orderly at orderly
  split at orderly
  · rename_i inOrder
    -- The oldest graph is not drained, and only its own members can hold each other up.
    have nonempty : {id | id ∈ oldest.members ∧ c.Unfinished id}.Nonempty :=
      ⟨member, listed, unfinished⟩
    obtain ⟨id, ⟨inside, op, held, notFinal⟩, free⟩ := (orderly oldest first).exists_free nonempty
    have candidate : oldest ∈ c.readiness.candidates := by
      simp [Readiness.candidates, readiness, inOrder, graphs]
    have snapshot := filed.snapshot oldest first id inside op held
    refine ⟨id, op, ⟨oldest, candidate, inside⟩, held,
      pending_of_unfinished notFinal (still id op held), ?_, fun dependency depends => ?_⟩
    · simp [Readiness.inCandidateGraph, readiness, inOrder, Queue.oldest?, graphs, snapshot]
    · refine (Readiness.isUnmet_commitGraph inOrder).mpr fun other found sameGraph => ?_
      by_contra running
      have otherUnfinished : c.Unfinished dependency :=
        ⟨other, found, Bool.eq_false_iff.mpr running⟩
      obtain ⟨home, homeQueued, homeMember, homeSnapshot⟩ := filed.graph_of found
      have sameHome : home = oldest := eq_of_snapshot_eq filed.ascending homeQueued first
        (homeSnapshot.symm.trans (sameGraph.trans snapshot))
      rw [sameHome] at homeMember
      exact free dependency ⟨homeMember, otherUnfinished⟩
        ⟨inside, homeMember, otherUnfinished, op, held, notFinal, depends⟩
  · rename_i atOnce
    -- All graphs count here, so the one that waits for nobody may be in any of them.
    obtain ⟨acyclic, known⟩ := orderly
    have nonempty : {id | c.Unfinished id}.Nonempty := ⟨member, unfinished⟩
    obtain ⟨id, ⟨op, held, notFinal⟩, free⟩ := acyclic.exists_free nonempty
    obtain ⟨home, homeQueued, homeMember, -⟩ := filed.graph_of held
    have candidate : home ∈ c.readiness.candidates := by
      simpa [Readiness.candidates, readiness, atOnce] using homeQueued
    refine ⟨id, op, ⟨home, candidate, homeMember⟩, held,
      pending_of_unfinished notFinal (still id op held), ?_, fun dependency depends => ?_⟩
    · simp [Readiness.inCandidateGraph, readiness, atOnce]
    · refine (Readiness.isUnmet_flatGraph atOnce).mpr ?_
      by_cases live : dependency ∈ c.table
      · obtain ⟨other, found⟩ := mem_table.mp live
        refine .inl ⟨other, found, ?_⟩
        by_contra running
        have otherUnfinished : c.Unfinished dependency :=
          ⟨other, found, Bool.eq_false_iff.mpr running⟩
        exact free dependency otherUnfinished ⟨otherUnfinished, op, held, notFinal, depends⟩
      · exact .inr ⟨live, (known id op held dependency depends).resolve_left live⟩

/-- An orderly pipeline has no stall to report, whatever the time. -/
theorem Orderly.stall?_eq_none (orderly : c.Orderly) (filed : c.Filed) (busy : c.Busy)
    (now : Instant) : c.stall? now = none := by
  rw [stall?]
  split
  · rfl
  · rename_i waiting
    simp only [Bool.or_eq_true, decide_eq_true_eq, not_or, Bool.not_eq_true] at waiting
    obtain ⟨⟨pending, -⟩, quiet⟩ := waiting
    obtain ⟨op, listed, -⟩ := List.countP_pos_iff.mp (Nat.pos_of_ne_zero pending)
    obtain ⟨id, held⟩ := mem_values.mp listed
    obtain ⟨graph, queued, -⟩ := filed.graph_of held
    have still : ∀ (id : OperationId) (op : Operation), c.table[id]? = some op →
        op.status ≠ .active := by
      intro id op held running
      simp only [hasActive, Bool.or_eq_false_iff, List.any_eq_false] at quiet
      exact quiet.2 op (mem_values.mpr ⟨id, held⟩) (decide_eq_true running)
    obtain ⟨id, op, startable⟩ :=
      orderly.exists_startable filed busy (List.ne_nil_of_mem queued) still
    refine if_pos ?_
    cases held : op.isHeld now with
    | true => simp [startable.nextHold held]
    | false => simp [List.ne_nil_of_mem (startable.ready held)]

/-! ### Driving a pipeline on -/

/-- Nothing is added to the work. Operations keep their dependencies, what is final stays so, and
nothing is forgotten. -/
structure Dwindles (c after : Core) : Prop where
  algorithm : after.algorithm = c.algorithm
  graphs : ∀ graph ∈ after.queue.graphs, graph ∈ c.queue.graphs
  operations : ∀ (id : OperationId) (later : Operation), after.table[id]? = some later →
    ∃ op, c.table[id]? = some op ∧ later.dependencies = op.dependencies ∧
      (op.status.isFinal = true → later.status.isFinal = true)
  known : ∀ id, id ∈ c.table ∨ id ∈ c.retired → id ∈ after.table ∨ id ∈ after.retired

theorem Dwindles.refl (c : Core) : c.Dwindles c :=
  ⟨rfl, fun _ queued => queued, fun _ op held => ⟨op, held, rfl, fun final => final⟩,
    fun _ known => known⟩

theorem Dwindles.trans (first : c.Dwindles after) (second : after.Dwindles later) :
    c.Dwindles later where
  algorithm := second.algorithm.trans first.algorithm
  graphs graph queued := first.graphs graph (second.graphs graph queued)
  operations id op held := by
    obtain ⟨middle, found, same, final⟩ := second.operations id op held
    obtain ⟨earlier, before, sameBefore, finalBefore⟩ := first.operations id middle found
    exact ⟨earlier, before, same.trans sameBefore, fun isFinal => final (finalBefore isFinal)⟩
  known id isKnown := second.known id (first.known id isKnown)

theorem Dwindles.unfinished (dwindles : c.Dwindles after) (unfinished : after.Unfinished id) :
    c.Unfinished id := by
  obtain ⟨op, held, notFinal⟩ := unfinished
  obtain ⟨earlier, found, -, final⟩ := dwindles.operations id op held
  refine ⟨earlier, found, Bool.eq_false_iff.mpr fun isFinal => ?_⟩
  rw [final isFinal] at notFinal
  cases notFinal

theorem Dwindles.waitsFor (dwindles : c.Dwindles after) (waits : after.WaitsFor id other) :
    c.WaitsFor id other := by
  obtain ⟨unfinished, op, held, notFinal, depends⟩ := waits
  obtain ⟨earlier, found, same, -⟩ := dwindles.operations id op held
  obtain ⟨again, foundAgain, stillNotFinal⟩ := dwindles.unfinished ⟨op, held, notFinal⟩
  cases found.symm.trans foundAgain
  exact ⟨dwindles.unfinished unfinished, earlier, found, stillNotFinal, same ▸ depends⟩

/-- Where work only dwindles, it stays orderly. -/
theorem Orderly.dwindles (orderly : c.Orderly) (dwindles : c.Dwindles after) : after.Orderly := by
  unfold Orderly at orderly ⊢
  rw [dwindles.algorithm]
  split
  · rename_i inOrder
    rw [inOrder] at orderly
    intro graph queued
    refine (orderly graph (dwindles.graphs graph queued)).mono ?_
    exact fun _ _ ⟨inside, otherInside, waits⟩ => ⟨inside, otherInside, dwindles.waitsFor waits⟩
  · rename_i atOnce
    rw [atOnce] at orderly
    obtain ⟨acyclic, known⟩ := orderly
    refine ⟨acyclic.mono fun _ _ => dwindles.waitsFor, fun id op held dependency depends => ?_⟩
    obtain ⟨earlier, found, same, -⟩ := dwindles.operations id op held
    exact dwindles.known dependency (known id earlier found dependency (same ▸ depends))

private theorem dwindles_modify {f : Operation → Operation} {active recovered : IdSet}
    (held : c.table[id]? = some op) (kept : ∀ op, (f op).dependencies = op.dependencies)
    (final : op.status.isFinal = true → (f op).status.isFinal = true) :
    c.Dwindles { c with table := c.table.modify id f, active, recovered } where
  algorithm := rfl
  graphs _ queued := queued
  operations other later found := by
    simp only [lookup_modify] at found
    split at found
    · rename_i same
      subst same
      rw [held, Option.map_some, Option.some.injEq] at found
      subst found
      exact ⟨op, held, kept op, final⟩
    · exact ⟨later, found, rfl, fun isFinal => isFinal⟩
  known other := by
    refine Or.imp_left fun live => ?_
    obtain ⟨found, lookup⟩ := mem_table.mp live
    exact mem_table.mpr (by simp only [lookup_modify, lookup]; split <;> simp)

theorem Admits.dwindles (drives : request.Drives) (admitted : c.Admits now request change) :
    c.Dwindles change.core := by
  cases admitted with
  | append | restore => exact drives.elim
  | complete held => exact dwindles_modify held (fun _ => rfl) fun _ => rfl
  | skip held => exact dwindles_modify held (fun _ => rfl) fun _ => rfl
  | reset held running =>
    refine dwindles_modify held (fun _ => rfl) fun final => ?_
    rw [running] at final
    cases final
  | forceActive held waiting =>
    refine dwindles_modify held (fun _ => rfl) fun final => ?_
    rw [waiting] at final
    cases final
  | setHold held => exact dwindles_modify held (fun _ => rfl) fun final => final
  | setLimit | suspend | resume =>
    exact ⟨rfl, fun _ queued => queued, fun _ op held => ⟨op, held, rfl, fun final => final⟩,
      fun _ known => known⟩
  | dispatch => exact .refl c

theorem prune_dwindles (c : Core) : c.Dwindles c.prune.2 where
  algorithm := pruned_algorithm c
  graphs _ kept := (mem_pruned_graphs.mp kept).1
  operations id op held := ⟨op, held_of_pruned held, rfl, fun final => final⟩
  known id := by
    rintro (live | retired)
    · by_cases drained : id ∈ c.drainedMembers
      · exact .inr (mem_retired_pruned.mpr (.inl drained))
      · obtain ⟨op, held⟩ := mem_table.mp live
        exact .inl (mem_table.mpr ⟨op, by rw [lookup_pruned, if_neg drained, held]⟩)
    · exact .inr (mem_retired_pruned.mpr (.inr retired))

theorem settled_dwindles (filed : c.Filed) (dispatches : c.prune.2.Dispatches now operations) :
    c.Dwindles (c.settled operations) := by
  refine (prune_dwindles c).trans ⟨settled_algorithm .. |>.trans (pruned_algorithm c).symm, ?_,
    fun id op held => ?_, fun id => ?_⟩
  · rw [settled_queue]
    exact fun _ queued => queued
  · rcases startAll_origin filed.prune dispatches held with
      ⟨-, waiting, found, pending, rfl⟩ | ⟨-, found⟩
    · refine ⟨waiting, found, rfl, fun final => ?_⟩
      rw [pending] at final
      cases final
    · exact ⟨op, found, rfl, fun final => final⟩
  · rw [settled_retired]
    refine Or.imp_left fun live => ?_
    change id ∈ (c.prune.2.startAll operations).table
    rwa [(startAll_continues dispatches filed.prune).mem_iff]

theorem Answers.dwindles {answer : Except Error Step} (answers : c.Answers now request answer after)
    (filed : c.Filed) (drives : request.Drives) : c.Dwindles after := by
  cases answers with
  | rejected | idle => exact .refl c
  | accepted admitted dispatches =>
    exact (admitted.dwindles drives).trans (settled_dwindles (filed.admitted admitted) dispatches)

end Core
end CommitPipeline
