import CommitPipeline.Proofs.TakingUp
import CommitPipeline.Proofs.WakeUps

/-! Reports of a stall. A pipeline reports one exactly if it is not suspended, nothing runs, and
something is pending although no operation that is considered may start or is held. Then each of
these waits for a dependency, the report names them all, and neither time nor calls about the
pipeline as a whole start anything. -/
namespace CommitPipeline

/-- A request about the pipeline as a whole, none of its operations. -/
def Request.Steers : Request → Prop
  | .setLimit _ | .suspend _ | .resume | .dispatch => True
  | _ => False

namespace Core
variable {c after : Core} {now t : Instant} {id : OperationId} {op : Operation} {stall : Stall}
  {request : Request} {change : Change} {answer : Except Error Step}

/-- A pending operation of a graph that the algorithm draws from. -/
def Waits (c : Core) (id : OperationId) (op : Operation) : Prop :=
  (∃ graph ∈ c.readiness.candidates, id ∈ graph.members) ∧
    c.table[id]? = some op ∧ op.status = .pending

/-- A pipeline at a standstill: it is not suspended, nothing runs, something is pending, and no
pending operation that is considered is held or may start. -/
structure StandsStill (c : Core) (now : Instant) : Prop where
  unsuspended : c.isSuspended = false
  still : ∀ (id : OperationId) (op : Operation), c.table[id]? = some op → op.status ≠ .active
  pending : ∃ (id : OperationId) (op : Operation), c.table[id]? = some op ∧ op.status = .pending
  unheld : ∀ id op, c.Waits id op → op.isHeld now = false
  unready : ∀ id op, c.Waits id op → id ∉ c.ready now

/-- What a report says of a blocked operation is the case: it is the pending operation with this
identifier and snapshot, it stands in the graph at this place, and it waits for these of its
dependencies, at least one, and for no others. -/
structure StalledOperation.Describes (stalled : StalledOperation) (c : Core) (op : Operation)
    (graph : Graph) : Prop where
  held : c.table[stalled.id]? = some op
  pending : op.status = .pending
  snapshot : stalled.snapshot = op.snapshot ∧ op.snapshot = graph.snapshot
  place : c.queue.graphs[stalled.graphIndex]? = some graph
  member : stalled.id ∈ graph.members
  waits : stalled.unmet ≠ []
  unmet : ∀ dependency, dependency ∈ stalled.unmet ↔
    dependency ∈ op.dependencies ∧ ¬ c.Cleared dependency
  once : stalled.unmet.Nodup

/-- A report names every pending operation that is considered, once and in queue order, and
describes it. -/
structure Stall.Explains (stall : Stall) (c : Core) : Prop where
  nonempty : stall.blocked ≠ []
  distinct : (stall.blocked.map (·.id)).Nodup
  ordered : (stall.blocked.map (·.id)).Pairwise (StandsBefore c.queue.graphs)
  complete : ∀ id, id ∈ stall.blocked.map (·.id) ↔ ∃ op, c.Waits id op
  described : ∀ stalled ∈ stall.blocked, ∃ op graph, stalled.Describes c op graph
  counted : stall.pending =
    {id : OperationId | ∃ op, c.table[id]? = some op ∧ op.status = .pending}.ncard
  all : c.algorithm = .flatGraph → stall.blocked.length = stall.pending

/-! ### When a stall is reported -/

theorem pendingCount_eq (c : Core) : c.pendingCount =
    {id : OperationId | ∃ op, c.table[id]? = some op ∧ op.status = .pending}.ncard := by
  rw [pendingCount, countP_values]
  simp only [decide_eq_true_eq]

theorem pendingCount_ne_zero : c.pendingCount ≠ 0 ↔
    ∃ (id : OperationId) (op : Operation), c.table[id]? = some op ∧ op.status = .pending := by
  simp only [← Nat.pos_iff_ne_zero, pendingCount, List.countP_pos_iff, mem_values,
    decide_eq_true_eq]
  constructor
  · rintro ⟨op, ⟨id, held⟩, pending⟩
    exact ⟨id, op, held, pending⟩
  · rintro ⟨id, op, held, pending⟩
    exact ⟨op, ⟨id, held⟩, pending⟩

/-- Nothing runs if no live operation is active. -/
theorem Tracked.hasActive_eq_false (tracked : c.Tracked) : c.hasActive = false ↔
    ∀ (id : OperationId) (op : Operation), c.table[id]? = some op → op.status ≠ .active := by
  simp only [hasActive, Bool.or_eq_false_iff, Bool.not_eq_false', Std.ExtTreeSet.isEmpty_iff,
    Std.ExtTreeSet.eq_empty_iff_forall_not_mem, List.any_eq_false, mem_values, decide_eq_true_eq]
  constructor
  · rintro ⟨-, still⟩ id op held
    exact still op ⟨id, held⟩
  · intro still
    constructor
    · intro id member
      obtain ⟨op, held, running⟩ := tracked.handedOut id member
      exact still id op held running
    · rintro op ⟨id, held⟩
      exact still id op held

theorem waits_iff : c.Waits id op ↔ ∃ entry ∈ c.readiness.considered,
    entry.id = id ∧ entry.operation = op ∧ op.status = .pending := by
  constructor
  · rintro ⟨⟨graph, candidate, member⟩, held, pending⟩
    obtain ⟨entry, considered, named, same⟩ := Readiness.considered_of_mem candidate member held
    exact ⟨entry, considered, named, same, pending⟩
  · rintro ⟨entry, considered, rfl, rfl, pending⟩
    obtain ⟨candidate, held⟩ := Readiness.mem_considered considered
    exact ⟨candidate, held, pending⟩

/-- The report of a stall, if there is one to make. -/
def report (c : Core) (now : Instant) : Stall where
  pending := c.pendingCount
  blocked := (c.readiness.blocked now).map fun b =>
    ⟨b.operation.id, b.operation.snapshot, b.graphIndex, b.unmet⟩

theorem stall?_eq_some_iff : c.stall? now = some stall ↔
    (c.isSuspended = false ∧ c.hasActive = false ∧ c.pendingCount ≠ 0 ∧ c.ready now = [] ∧
      c.nextHold now = none) ∧ c.report now = stall := by
  rw [stall?]
  split
  · rename_i quiet
    simp only [Bool.or_eq_true, decide_eq_true_eq] at quiet
    simp only [reduceCtorEq, false_iff]
    rintro ⟨⟨unsuspended, still, pending, -⟩, -⟩
    simp [unsuspended, still, pending] at quiet
  · rename_i waiting
    simp only [Bool.or_eq_true, decide_eq_true_eq, not_or, Bool.not_eq_true] at waiting
    obtain ⟨⟨pending, unsuspended⟩, still⟩ := waiting
    split
    · rename_i moves
      simp only [reduceCtorEq, false_iff]
      rintro ⟨⟨-, -, -, unready, unheld⟩, -⟩
      simp [unready, unheld] at moves
    · rename_i stuck
      simp only [Bool.or_eq_true, Bool.not_eq_true', not_or, Bool.not_eq_false, List.isEmpty_iff,
        Option.not_isSome_iff_eq_none] at stuck
      rw [Option.some.injEq]
      exact ⟨fun same => ⟨⟨unsuspended, still, pending, stuck⟩, same⟩, And.right⟩

theorem StandsStill.ready_eq_nil_now (stands : c.StandsStill now) : c.ready now = [] := by
  refine List.eq_nil_iff_forall_not_mem.mpr fun id member => ?_
  obtain ⟨op, startable, -⟩ := mem_ready.mp member
  exact stands.unready id op ⟨startable.considered, startable.held, startable.pending⟩ member

theorem StandsStill.nextHold_eq_none (stands : c.StandsStill now) : c.nextHold now = none := by
  cases found : c.nextHold now with
  | none => rfl
  | some deadline =>
    obtain ⟨ahead, id, holds⟩ := holds_of_nextHold found
    obtain ⟨graph, candidate, member, op, held, pending, hold⟩ := holds_iff.mp holds
    have free := stands.unheld id op ⟨⟨graph, candidate, member⟩, held, pending⟩
    cases free.symm.trans (Operation.isHeld_iff.mpr ⟨deadline, hold, ahead⟩)

/-- A stall is reported exactly at a standstill. -/
theorem Tracked.stall?_eq_some_iff (tracked : c.Tracked) :
    c.stall? now = some stall ↔ c.StandsStill now ∧ c.report now = stall := by
  rw [Core.stall?_eq_some_iff, tracked.hasActive_eq_false, pendingCount_ne_zero]
  refine and_congr_left fun _ => ⟨?_, fun stands => ?_⟩
  · rintro ⟨unsuspended, still, pending, unready, unheld⟩
    refine ⟨unsuspended, still, pending, fun id op waits => ?_, fun id op _ => by simp [unready]⟩
    obtain ⟨⟨graph, candidate, member⟩, held, pending⟩ := waits
    by_contra isHeld
    rw [Bool.not_eq_false, Operation.isHeld_iff] at isHeld
    obtain ⟨release, hold, ahead⟩ := isHeld
    obtain ⟨deadline, found, -⟩ := (nextHold_covers now
      (holds_iff.mpr ⟨graph, candidate, member, op, held, pending, hold⟩)).mpr ahead
    cases unheld.symm.trans found
  · exact ⟨stands.unsuspended, stands.still, stands.pending, stands.ready_eq_nil_now,
      stands.nextHold_eq_none⟩

/-! ### What a report says -/

/-- At a standstill every pending operation that is considered waits for a dependency. -/
theorem StandsStill.hindered (stands : c.StandsStill now) (filed : c.Filed)
    (waits : c.Waits id op) :
    c.readiness.inCandidateGraph op = true ∧ c.readiness.unmet op ≠ [] := by
  have candidate := (filed.inCandidateGraph waits.2.1).mpr waits.1
  refine ⟨candidate, fun met => stands.unready id op waits ?_⟩
  refine (filed.isReady_iff_mem_ready waits.2.1).mp ?_
  simp [Readiness.isReady, waits.2.2, candidate, stands.unheld id op waits, met]

/-- Every pending operation that is considered is reported. -/
theorem StandsStill.blocked_eq (stands : c.StandsStill now) (filed : c.Filed) :
    c.readiness.blocked now = (c.readiness.considered.filter (·.operation.status = .pending)).map
      fun entry => ⟨entry.graphIndex, entry.operation, c.readiness.unmet entry.operation⟩ := by
  rw [Readiness.blocked, ← List.filterMap_eq_map, List.filterMap_filter]
  refine List.filterMap_congr fun entry considered => ?_
  by_cases pending : entry.operation.status = .pending
  · have waits : c.Waits entry.id entry.operation :=
      waits_iff.mpr ⟨entry, considered, rfl, rfl, pending⟩
    have free := stands.unheld _ _ waits
    obtain ⟨-, hindered⟩ := stands.hindered filed waits
    simp only [pending, free]
    cases unmet : c.readiness.unmet entry.operation with
    | nil => exact (hindered unmet).elim
    | cons => simp [unmet]
  · simp [pending]

/-- The entry of a report for an operation that is considered. -/
def stalled (c : Core) (entry : Listed) : StalledOperation :=
  ⟨entry.operation.id, entry.operation.snapshot, entry.graphIndex,
    c.readiness.unmet entry.operation⟩

theorem StandsStill.report_blocked (stands : c.StandsStill now) (filed : c.Filed) :
    (c.report now).blocked =
      (c.readiness.considered.filter (·.operation.status = .pending)).map c.stalled := by
  rw [report, stands.blocked_eq filed, List.map_map]
  rfl

theorem StandsStill.describes (stands : c.StandsStill now) (filed : c.Filed) {entry : Listed}
    (considered : entry ∈ c.readiness.considered) (pending : entry.operation.status = .pending) :
    ∃ graph, (c.stalled entry).Describes c entry.operation graph := by
  obtain ⟨place, graph, found, index, member, held⟩ := Listed.mem_ofGraphs.mp considered
  have queued := Readiness.candidate_at found
  have named : entry.operation.id = entry.id := filed.keyed entry.id entry.operation held
  have waits : c.Waits entry.id entry.operation :=
    waits_iff.mpr ⟨entry, considered, rfl, rfl, pending⟩
  obtain ⟨candidate, hindered⟩ := stands.hindered filed waits
  refine ⟨graph, ?held, pending, ⟨rfl, ?snapshot⟩, ?place, ?member, hindered,
    fun dependency => ?unmet, ?once⟩
  case held =>
    change c.table[entry.operation.id]? = some entry.operation
    rw [named]
    exact held
  case snapshot =>
    exact filed.snapshot graph (List.mem_of_getElem? queued) entry.id member entry.operation held
  case place =>
    rw [stalled, index, Nat.zero_add]
    exact queued
  case member =>
    change entry.operation.id ∈ graph.members
    rwa [named]
  case unmet =>
    rw [← filed.isUnmet_iff candidate, Bool.not_eq_false, stalled, Readiness.unmet, List.mem_filter,
      Std.ExtTreeSet.mem_toList]
  case once =>
    have distinct : entry.operation.dependencies.toList.Nodup :=
      Std.ExtTreeSet.distinct_toList.imp fun differ same => differ (by simp [same])
    exact distinct.filter _

/-- The identifiers of a report, taken from what is considered. -/
private theorem StandsStill.report_ids (stands : c.StandsStill now) (filed : c.Filed) :
    (c.report now).blocked.map (·.id) =
      (c.readiness.considered.filter (·.operation.status = .pending)).map (·.id) := by
  rw [stands.report_blocked filed, List.map_map]
  refine List.map_congr_left fun entry member => ?_
  exact filed.keyed entry.id entry.operation
    (Readiness.mem_considered (List.mem_filter.mp member).1).2

theorem StandsStill.mem_report (stands : c.StandsStill now) (filed : c.Filed) :
    id ∈ (c.report now).blocked.map (·.id) ↔ ∃ op, c.Waits id op := by
  rw [stands.report_ids filed]
  simp only [List.mem_map, List.mem_filter, decide_eq_true_eq, waits_iff]
  constructor
  · rintro ⟨entry, ⟨considered, pending⟩, rfl⟩
    exact ⟨entry.operation, entry, considered, rfl, rfl, pending⟩
  · rintro ⟨op, entry, considered, rfl, rfl, pending⟩
    exact ⟨entry, ⟨considered, pending⟩, rfl⟩

theorem StandsStill.report_nodup (stands : c.StandsStill now) (filed : c.Filed) :
    ((c.report now).blocked.map (·.id)).Nodup := by
  rw [stands.report_ids filed]
  exact (List.filter_sublist.map _).nodup filed.considered_nodup

/-- The oldest graph is not drained, so that one of its members waits. -/
theorem StandsStill.exists_waits (stands : c.StandsStill now) (filed : c.Filed) (busy : c.Busy) :
    ∃ id op, c.Waits id op := by
  obtain ⟨id, op, held, -⟩ := stands.pending
  obtain ⟨home, queued, -, -⟩ := filed.graph_of held
  obtain ⟨oldest, rest, graphs⟩ := List.exists_cons_of_ne_nil (List.ne_nil_of_mem queued)
  have first : oldest ∈ c.queue.graphs := by rw [graphs]; exact List.mem_cons_self
  obtain ⟨member, listed, one, found, unfinished⟩ := busy oldest first
  have candidate : oldest ∈ c.readiness.candidates := by
    cases algorithm : c.algorithm with
    | commitGraph =>
      rw [mem_candidates_commitGraph algorithm, Queue.oldest?, graphs]
      rfl
    | flatGraph =>
      rw [candidates_flatGraph algorithm]
      exact first
  exact ⟨member, one, ⟨oldest, candidate, listed⟩, found,
    pending_of_unfinished unfinished (stands.still member one found)⟩

theorem StandsStill.explains (stands : c.StandsStill now) (filed : c.Filed) (busy : c.Busy) :
    (c.report now).Explains c where
  nonempty := by
    obtain ⟨id, op, waits⟩ := stands.exists_waits filed busy
    have reported := (stands.mem_report filed).mpr ⟨op, waits⟩
    exact fun none => by simp [none] at reported
  distinct := stands.report_nodup filed
  ordered := by
    rw [stands.report_ids filed, List.pairwise_map]
    exact c.readiness.considered_pairwise.sublist List.filter_sublist
  complete id := stands.mem_report filed
  described stalled reported := by
    rw [stands.report_blocked filed] at reported
    obtain ⟨entry, member, rfl⟩ := List.mem_map.mp reported
    obtain ⟨considered, pending⟩ := List.mem_filter.mp member
    obtain ⟨graph, describes⟩ := stands.describes filed considered (of_decide_eq_true pending)
    exact ⟨entry.operation, graph, describes⟩
  counted := c.pendingCount_eq
  all atOnce := by
    have same : ({id : OperationId | ∃ op, c.table[id]? = some op ∧ op.status = .pending} :
        Set OperationId) = (((c.report now).blocked.map (·.id)).toFinset : Set OperationId) := by
      ext id
      rw [List.coe_toFinset, Set.mem_ofPred_eq, Set.mem_ofPred_eq, stands.mem_report filed]
      refine exists_congr fun op => (and_iff_right_of_imp fun ⟨held, _⟩ => ?_).symm
      obtain ⟨graph, queued, member, -⟩ := filed.graph_of held
      exact ⟨graph, candidates_flatGraph atOnce ▸ queued, member⟩
    change _ = c.pendingCount
    rw [pendingCount_eq, same, Set.ncard_coe_finset,
      List.toFinset_card_of_nodup (stands.report_nodup filed), List.length_map]

/-! ### Why a stall lasts -/

/-- At a standstill nothing may start at any time: what time could bring would be held. -/
theorem StandsStill.ready_eq_nil (stands : c.StandsStill now) (t : Instant) : c.ready t = [] := by
  rcases Instant.le_total now t with later | earlier
  · by_contra starts
    have differ : c.ready now ≠ c.ready t := by
      rw [stands.ready_eq_nil_now]
      exact Ne.symm starts
    obtain ⟨deadline, found, -⟩ := nextHold_of_ready_ne later differ
    cases stands.nextHold_eq_none.symm.trans found
  · exact List.sublist_nil.mp (stands.ready_eq_nil_now ▸ c.ready_sublist earlier)

/-- A standstill is one at all later times, in whatever state has the same work and is not
suspended. -/
theorem StandsStill.later (stands : c.StandsStill now) (order : now ≤ t)
    (readiness : after.readiness = c.readiness) (unsuspended : after.isSuspended = false) :
    after.StandsStill t := by
  have table : after.table = c.table := congrArg Readiness.table readiness
  have waits {id : OperationId} {op : Operation} (waits : after.Waits id op) : c.Waits id op := by
    rwa [Waits, readiness, table] at waits
  refine ⟨unsuspended, table ▸ stands.still, table ▸ stands.pending, fun id op waiting => ?_,
    fun id op _ => ?_⟩
  · exact Engine.isHeld_later (stands.unheld id op (waits waiting)) order
  · have never : c.readiness.ready t = [] := stands.ready_eq_nil t
    rw [ready, readiness, never]
    exact List.not_mem_nil

theorem StandsStill.report_eq (stands : c.StandsStill now) (filed : c.Filed)
    (later : after.StandsStill t) (laterFiled : after.Filed)
    (readiness : after.readiness = c.readiness) : after.report t = c.report now := by
  have table : after.table = c.table := congrArg Readiness.table readiness
  rw [report, report, later.blocked_eq laterFiled, stands.blocked_eq filed, readiness, pendingCount,
    table]
  rfl

/-- Where nothing may ever start, a request about the pipeline as a whole starts nothing, and leaves
the work as it is. -/
theorem Answers.steered (answers : c.Answers t request answer after) (steers : request.Steers)
    (busy : c.Busy) (never : ∀ t, c.ready t = []) :
    Entry.dispatched ⟨c, .request t request, answer⟩ = [] ∧ after.readiness = c.readiness := by
  cases answers with
  | rejected | idle => exact ⟨rfl, rfl⟩
  | @accepted change operations admitted dispatches =>
    have same : change.core.readiness = c.readiness ∧ change.core.prune.2 = change.core := by
      cases admitted with
      | setLimit | suspend | resume | dispatch => exact ⟨rfl, prune_of_busy busy⟩
      | append | restore | complete | skip | reset | forceActive | setHold => exact steers.elim
    obtain ⟨readiness, unpruned⟩ := same
    have nothing : operations = [] := by
      have offered := dispatches.offered
      have none : c.readiness.ready t = [] := never t
      rw [unpruned, ready, readiness, none] at offered
      exact List.map_eq_nil_iff.mp (List.sublist_nil.mp offered)
    subst nothing
    refine ⟨rfl, ?_⟩
    rw [settled, unpruned]
    exact readiness

end Core

/-- A call about the pipeline as a whole. -/
def Entry.Steers (entry : Entry) : Prop :=
  ∃ t request, entry.call = .request t request ∧ request.Steers

section Run
variable {σ : Type} [OperationStore σ] {names : Names} {algorithm : Algorithm}
  {history since : List Entry} {e later : Engine σ}

/-- Where nothing may ever start, calls about the pipeline as a whole start nothing. -/
theorem Run.steered (run : Run names algorithm history e) (never : ∀ t, e.core.ready t = [])
    (goesOn : e.GoesOn since later) (steers : ∀ entry ∈ since, entry.Steers) :
    (∀ entry ∈ since, entry.dispatched = []) ∧ later.core.readiness = e.core.readiness := by
  induction goesOn with
  | here => exact ⟨List.forall_mem_nil _, rfl⟩
  | @call since later goesOn store call ih =>
    obtain ⟨silent, same⟩ := ih fun entry member => steers entry (List.mem_cons_of_mem _ member)
    obtain ⟨t, request, asked, steered⟩ := steers _ List.mem_cons_self
    cases asked
    have sound := (run.goesOn goesOn).sound
    have never (t : Instant) : later.core.ready t = [] := by
      rw [Core.ready, same]
      exact never t
    obtain ⟨quiet, kept⟩ := (Engine.apply_answers ⟨later.core, store⟩ t request sound.filed).steered
      steered sound.busy never
    exact ⟨List.forall_mem_cons.mpr ⟨quiet, silent⟩, kept.trans same⟩

/-- In every state of every run and at any instant, a stall is reported exactly if the pipeline is
at a standstill. The report then describes all pending operations that are considered; and whatever
calls about the pipeline as a whole follow, at whatever instants, none of them starts anything, the
work stays as it is, and from then on the same stall is reported whenever the pipeline is not
suspended. -/
theorem stall_reported_iff_standstill (run : Run names algorithm history e) (now : Instant) :
    ((∃ stall, e.core.stall? now = some stall) ↔ e.core.StandsStill now) ∧
    ∀ stall, e.core.stall? now = some stall → stall.Explains e.core ∧
      ∀ since later, e.GoesOn since later → (∀ entry ∈ since, entry.Steers) →
        (∀ entry ∈ since, entry.dispatched = []) ∧ later.core.readiness = e.core.readiness ∧
        (later.core.isSuspended = false → ∀ t, now ≤ t → later.core.stall? t = some stall) := by
  have sound := run.sound
  refine ⟨?_, fun stall reported => ?_⟩
  · simp only [sound.tracked.stall?_eq_some_iff, exists_and_left, exists_eq', and_true]
  · obtain ⟨stands, rfl⟩ := sound.tracked.stall?_eq_some_iff.mp reported
    refine ⟨stands.explains sound.filed sound.busy, fun since later goesOn steers => ?_⟩
    obtain ⟨silent, same⟩ := run.steered stands.ready_eq_nil goesOn steers
    refine ⟨silent, same, fun unsuspended t order => ?_⟩
    have laterSound := (run.goesOn goesOn).sound
    have stillStands := stands.later order same unsuspended
    exact laterSound.tracked.stall?_eq_some_iff.mpr
      ⟨stillStands, stands.report_eq sound.filed stillStands laterSound.filed same⟩

/-- A commit of two operations that wait for each other. -/
def waitingInACircle : List Call := [
  .request .first (.append 1 [.new (.ofNat 1), .new (.ofNat 2)]
    [⟨.ofNat 1, .ofNat 2⟩, ⟨.ofNat 2, .ofNat 1⟩])]

theorem circle_reported :
    let e := (runOf (.new "uploads" []) .commitGraph Memory.empty waitingInACircle).2
    let stall : Core.Stall :=
      ⟨2, [⟨.ofNat 1, 1, 0, [.ofNat 2]⟩, ⟨.ofNat 2, 1, 0, [.ofNat 1]⟩]⟩
    e.core.stall? .first = some stall ∧ e.core.StandsStill .first ∧ stall.Explains e.core ∧
      ∀ since later, e.GoesOn since later → (∀ entry ∈ since, entry.Steers) →
        (∀ entry ∈ since, entry.dispatched = []) ∧ later.core.readiness = e.core.readiness ∧
        (later.core.isSuspended = false →
          ∀ t, .first ≤ t → later.core.stall? t = some stall) := by
  intro e stall
  have reported : e.core.stall? .first = some stall := by decide +kernel
  obtain ⟨standstill, lasting⟩ := stall_reported_iff_standstill
    (.of_calls (.new "uploads" []) .commitGraph Memory.empty waitingInACircle) .first
  exact ⟨reported, standstill.mp ⟨stall, reported⟩, lasting stall reported⟩

end Run
end CommitPipeline
