import Mathlib.Data.List.Duplicate
import CommitPipeline.Proofs.CrossCommitEdges
import CommitPipeline.Proofs.FittingWrites
import CommitPipeline.Proofs.Lifecycle
import CommitPipeline.Proofs.RestoreLoop

/-! Which requests are accepted, and why the others are not. `Grants` and `Objects` tell it by the
live operations and the history alone; the highest snapshot and the recovered set, which the checks
read, are facts of the history. Over an unlocked memory that nobody else writes to, the checks have
the last word: what they let pass is never refused by the store. -/
namespace CommitPipeline

/-- The statuses that a transition may lead from. -/
def Transition.sources : Transition → List Status
  | .complete | .reset => [.active]
  | .skip | .addDependency => [.pending, .active]
  | .forceActive => [.pending]

theorem Transition.mem_sources_skip {status : Status} :
    status ∈ Transition.skip.sources ↔ status.isFinal = false := by
  cases status <;> simp [sources, Status.isFinal]

namespace Request

/-- The operation that a request moves on, and how. -/
def transition? : Request → Option (OperationId × Transition)
  | .complete id => some (id, .complete)
  | .skip id => some (id, .skip)
  | .reset id _ => some (id, .reset)
  | .forceActive id => some (id, .forceActive)
  | _ => none

/-- The edges that come with a new commit. -/
def edges : Request → List Edge
  | .append _ _ edges => edges
  | _ => []

end Request

/-- Whether a commit was accepted with a snapshot, be it empty or long gone. -/
def AcceptedIn (history : List Entry) (snapshot : Nat) : Prop :=
  ∃ graph ∈ queuedGraphs history, graph.snapshot = snapshot

/-- Whether an operation was activated from outside since it was queued. -/
def ForcedIn (history : List Entry) (id : OperationId) : Prop :=
  ∃ later forced earlier, history = later ++ forced :: earlier ∧
    forced.accepted? = some (.forceActive id) ∧ ∀ entry ∈ later, ¬ entry.Queues id

namespace Core

/-- An operation may be moved on: it is live, its status is one to start from, and an activation
from outside is the first since it was queued. -/
def Permits (c : Core) (history : List Entry) (id : OperationId) (transition : Transition) : Prop :=
  ∃ op, c.table[id]? = some op ∧ op.status ∈ transition.sources ∧
    (transition = .forceActive → ¬ ForcedIn history id)

/-- A commit may be queued with some edges: it is later than all before it, and its operations are
new. -/
structure Welcomes (c : Core) (history : List Entry) (graph : Graph) (edges : List Edge) :
    Prop where
  later : ∀ snapshot, AcceptedIn history snapshot → snapshot < graph.snapshot
  distinct : graph.members.Nodup
  fresh : ∀ id ∈ graph.members, id ∉ c.table
  fit : c.EdgesFit graph.members edges

/-- What has to be the case for a request. -/
structure Grants (c : Core) (history : List Entry) (request : Request) : Prop where
  permits : ∀ id transition, request.transition? = some (id, transition) →
    c.Permits history id transition
  welcomes : ∀ graph, request.graph? c.names = some graph →
    c.Welcomes history graph request.edges

/-- The errors that a request can meet, each with what is the case then. -/
inductive Objects (c : Core) (history : List Entry) (request : Request) : Error → Prop where
  | notLive {id : OperationId} {transition : Transition}
      (moves : request.transition? = some (id, transition)) (absent : id ∉ c.table) :
      Objects c history request (.unknownOperation id)
  | wrongStatus {id : OperationId} {transition : Transition} {op : Operation}
      (moves : request.transition? = some (id, transition)) (held : c.table[id]? = some op)
      (wrong : op.status ∉ transition.sources ∨
        transition = .forceActive ∧ ForcedIn history id) :
      Objects c history request (.invalidTransition id op.status transition)
  | late {graph : Graph} {latest : Nat} (queues : request.graph? c.names = some graph)
      (accepted : AcceptedIn history latest)
      (highest : ∀ snapshot, AcceptedIn history snapshot → snapshot ≤ latest)
      (late : graph.snapshot ≤ latest) :
      Objects c history request (.orderingViolation graph.snapshot latest)
  | duplicate {graph : Graph} {id : OperationId}
      (queues : request.graph? c.names = some graph) (member : id ∈ graph.members)
      (taken : id ∈ c.table ∨ List.Duplicate id graph.members) :
      Objects c history request (.duplicateOperation id)
  | endsOutside {graph : Graph} {edge : Edge} (queues : request.graph? c.names = some graph)
      (asked : edge ∈ request.edges) (outside : edge.dependsOn ∉ graph.members) :
      Objects c history request (.unknownOperation edge.dependsOn)
  | startsOutside {graph : Graph} {edge : Edge} (queues : request.graph? c.names = some graph)
      (asked : edge ∈ request.edges) (outside : edge.operation ∉ graph.members)
      (absent : edge.operation ∉ c.table) :
      Objects c history request (.unknownOperation edge.operation)
  | startsFinal {graph : Graph} {edge : Edge} {op : Operation}
      (queues : request.graph? c.names = some graph) (asked : edge ∈ request.edges)
      (outside : edge.operation ∉ graph.members)
      (held : c.table[edge.operation]? = some op) (final : op.status.isFinal = true) :
      Objects c history request (.invalidTransition edge.operation op.status .addDependency)

variable {c after : Core} {history : List Entry} {id : OperationId} {now : Instant}
  {request : Request} {change : Change} {error : Error}

/-- Nothing is said against a request that is granted. -/
theorem Objects.not_grants (objects : c.Objects history request error) :
    ¬ c.Grants history request := by
  intro grants
  cases objects with
  | notLive moves absent =>
    obtain ⟨op, held, -⟩ := grants.permits _ _ moves
    exact absent (mem_table.mpr ⟨op, held⟩)
  | wrongStatus moves held wrong =>
    obtain ⟨op, found, source, first⟩ := grants.permits _ _ moves
    cases found.symm.trans held
    exact wrong.elim (fun other => other source) fun ⟨forces, forced⟩ => first forces forced
  | late queues accepted highest late =>
    have later := (grants.welcomes _ queues).later _ accepted
    omega
  | duplicate queues member taken =>
    have welcomes := grants.welcomes _ queues
    exact taken.elim (welcomes.fresh _ member) fun twice => twice.not_nodup welcomes.distinct
  | endsOutside queues asked outside =>
    exact outside ((grants.welcomes _ queues).fit _ asked).1
  | startsOutside queues asked outside absent =>
    obtain ⟨op, held, -⟩ := ((grants.welcomes _ queues).fit _ asked).2 outside
    exact absent (mem_table.mpr ⟨op, held⟩)
  | startsFinal queues asked outside held final =>
    obtain ⟨op, found, unfinished⟩ := ((grants.welcomes _ queues).fit _ asked).2 outside
    cases found.symm.trans held
    rw [final] at unfinished
    cases unfinished

/-! ### What the history tells of the state -/

/-- The highest snapshot and the recovered set of a pipeline are what its history says. -/
structure ToldBy (c : Core) (history : List Entry) : Prop where
  latest : ∀ latest, c.queue.latest = some latest → AcceptedIn history latest
  accepted : ∀ snapshot, AcceptedIn history snapshot →
    ∃ latest, c.queue.latest = some latest ∧ snapshot ≤ latest
  forced : ∀ id ∈ c.table, id ∈ c.recovered ↔ ForcedIn history id

/-- A request notes an activation from outside, and forgets none. -/
theorem Admits.mem_recovered (admitted : c.Admits now request change) :
    id ∈ change.core.recovered ↔ request = .forceActive id ∨ id ∈ c.recovered := by
  cases admitted with
  | @forceActive target =>
    simp only [Std.ExtTreeSet.mem_insert, Request.forceActive.injEq]
    grind
  | append | restore | complete | skip | reset | setHold | setLimit | suspend | resume
  | dispatch => exact (or_iff_right nofun).symm

end Core

section History
variable {history : List Entry} {entry : Entry} {id : OperationId}

theorem forcedIn_cons : ForcedIn (entry :: history) id ↔
    entry.accepted? = some (.forceActive id) ∨ (¬ entry.Queues id ∧ ForcedIn history id) := by
  constructor
  · rintro ⟨later, forced, earlier, split, accepted, quiet⟩
    rcases List.cons_eq_append_iff.mp split with ⟨rfl, same⟩ | ⟨later, rfl, rest⟩
    · cases same
      exact .inl accepted
    · exact .inr ⟨quiet entry List.mem_cons_self, later, forced, earlier, rest, accepted,
        fun one member => quiet one (List.mem_cons_of_mem _ member)⟩
  · rintro (accepted | ⟨quiet, later, forced, earlier, rfl, accepted, others⟩)
    · exact ⟨[], entry, history, rfl, accepted, List.forall_mem_nil _⟩
    · exact ⟨entry :: later, forced, earlier, rfl, accepted,
        List.forall_mem_cons.mpr ⟨quiet, others⟩⟩

end History

namespace Core
variable {c after : Core} {history : List Entry} {id : OperationId} {now : Instant}
  {request : Request} {change : Change} {error : Error} {answer : Except Error Step}

/-- A live operation is noted as recovered after a call if the call activated it from outside, or if
it was noted before and is not queued anew. -/
theorem Answers.mem_recovered (answers : c.Answers now request answer after) (filed : c.Filed)
    (tracked : c.Tracked) (live : id ∈ after.table) :
    id ∈ after.recovered ↔
      Entry.accepted? ⟨c, .request now request, answer⟩ = some (.forceActive id) ∨
        (¬ Entry.Queues ⟨c, .request now request, answer⟩ id ∧ id ∈ c.recovered) := by
  have known (member : id ∈ c.recovered) : ¬ Entry.Queues ⟨c, .request now request, answer⟩ id :=
    fun queues => answers.queues_fresh queues (tracked.recovered id member)
  rw [and_iff_right_of_imp known]
  cases answers with
  | rejected error => exact (or_iff_right nofun).symm
  | idle idle =>
    refine (or_iff_right ?_).symm
    rintro ⟨⟩
    obtain ⟨_, -, done⟩ := except_bind_ok.mp idle
    cases done
  | @accepted change operations admitted dispatches =>
    have kept := ((mem_settled_table (filed.admitted admitted) dispatches).mp live).2
    rw [settled_recovered, and_iff_right kept, admitted.mem_recovered]
    exact or_congr_left Option.some_inj.symm

end Core

namespace Run
variable {σ : Type} [OperationStore σ] {names : Names} {algorithm : Algorithm}
  {history : List Entry} {e : Engine σ}

theorem traced (run : Run names algorithm history e) :
    e.core.Traced (queuedGraphs history) := by
  induction run with
  | launch store => exact Core.traced_new names algorithm
  | @call history e run store call ih =>
    rw [Core.queuedGraphs_cons]
    cases call with
    | request now request =>
      exact ih.answered (Engine.apply_answers ⟨e.core, store⟩ now request ih.filed)
    | retireMissing batches =>
      exact ⟨ih.filed.of_continues rfl rfl rfl (.refl _), ih.latest, ih.accepted, ih.live⟩

theorem recovered_iff (run : Run names algorithm history e) {id : OperationId}
    (live : id ∈ e.core.table) : id ∈ e.core.recovered ↔ ForcedIn history id := by
  induction run generalizing id with
  | launch store => simp [Core.new] at live
  | @call history e run store call ih =>
    rw [forcedIn_cons]
    cases call with
    | request now request =>
      have sound := run.sound
      have answers := Engine.apply_answers ⟨e.core, store⟩ now request sound.filed
      refine (answers.mem_recovered sound.filed sound.tracked live).trans
        (or_congr_right (and_congr_right fun quiet => ?_))
      exact ih ((answers.live_origin sound.filed live).resolve_right quiet)
    | retireMissing batches =>
      rw [← ih live]
      constructor
      · refine fun member => .inr ⟨?_, member⟩
        rintro ⟨_, ⟨⟩, -⟩
      · rintro (⟨⟨⟩⟩ | ⟨-, member⟩)
        exact member

theorem toldBy (run : Run names algorithm history e) : e.core.ToldBy history where
  latest := run.traced.latest
  accepted := by
    rintro _ ⟨graph, queued, rfl⟩
    exact run.traced.accepted graph queued
  forced _ := run.recovered_iff

end Run

/-! ### Why a check fails -/

namespace Core
variable {c : Core} {history : List Entry} {id : OperationId} {now : Instant}
  {request : Request} {change : Change} {error : Error}

theorem statusOf_error :
    c.statusOf id = .error error ↔ id ∉ c.table ∧ error = .unknownOperation id := by
  unfold statusOf find
  rw [mem_table]
  cases c.table[id]? <;> simp [Except.map, eq_comm]

/-- A queue rejects a snapshot that is not above the highest. -/
theorem push_error {q : Queue} {graph : Graph} (failed : q.push graph = .error error) :
    ∃ latest, q.latest = some latest ∧ graph.snapshot ≤ latest ∧
      error = .orderingViolation graph.snapshot latest := by
  rcases except_bind_error.mp failed with checked | ⟨⟨⟩, -, pushed⟩
  · unfold Queue.check at checked
    split at checked
    · rename_i latest known
      split at checked
      · rename_i late
        cases checked
        exact ⟨latest, known, late, rfl⟩
      · cases checked
    · cases checked
  · split at pushed <;> cases pushed

/-- Among identifiers that are not new, one is live, was seen before them or comes twice. -/
theorem checkFresh_error {seen : IdSet} {ids : List OperationId}
    (failed : c.checkFresh seen ids = .error error) :
    ∃ id ∈ ids, error = .duplicateOperation id ∧
      (id ∈ c.table ∨ id ∈ seen ∨ List.Duplicate id ids) := by
  induction ids generalizing seen with
  | nil => cases failed
  | cons first rest ih =>
    rw [checkFresh] at failed
    split at failed
    · rename_i known
      cases failed
      have known : first ∈ c.table ∨ first ∈ seen := by simpa using known
      exact ⟨first, List.mem_cons_self, rfl, known.imp_right .inl⟩
    · obtain ⟨id, member, rfl, taken⟩ := ih failed
      refine ⟨id, List.mem_cons_of_mem _ member, rfl, taken.imp_right ?_⟩
      rintro (before | twice)
      · rcases Std.ExtTreeSet.mem_insert.mp before with same | before
        · obtain rfl : first = id := by simpa using same
          exact .inr (.cons_mem member)
        · exact .inl before
      · exact .inr (twice.duplicate_cons first)

/-- Among edges that do not fit, one ends outside the batch, or starts neither in the batch nor at a
live operation, or starts at a final one. -/
theorem edgesFromQueued_error {batch : List OperationId} {edges : List Edge}
    (failed : c.edgesFromQueued batch edges = .error error) :
    ∃ edge ∈ edges, (edge.dependsOn ∉ batch ∧ error = .unknownOperation edge.dependsOn) ∨
      edge.operation ∉ batch ∧
        ((edge.operation ∉ c.table ∧ error = .unknownOperation edge.operation) ∨
        ∃ op, c.table[edge.operation]? = some op ∧ op.status.isFinal = true ∧
          error = .invalidTransition edge.operation op.status .addDependency) := by
  induction edges with
  | nil => cases failed
  | cons edge rest ih =>
    rw [edgesFromQueued] at failed
    split at failed
    · rename_i outside
      cases failed
      exact ⟨edge, List.mem_cons_self, .inl ⟨by simpa using outside, rfl⟩⟩
    · split at failed
      · obtain ⟨later, member, wrong⟩ := ih failed
        exact ⟨later, List.mem_cons_of_mem _ member, wrong⟩
      · rename_i outside
        have outside : edge.operation ∉ batch := by simpa using outside
        rcases except_bind_error.mp failed with unread | ⟨status, read, failed⟩
        · exact ⟨edge, List.mem_cons_self, .inr ⟨outside, .inl (statusOf_error.mp unread)⟩⟩
        · obtain ⟨op, held, rfl⟩ := statusOf_ok.mp read
          split at failed
          · rename_i final
            cases failed
            exact ⟨edge, List.mem_cons_self, .inr ⟨outside, .inr ⟨op, held, final, rfl⟩⟩⟩
          · rcases except_bind_error.mp failed with failed | ⟨_, -, done⟩
            · obtain ⟨later, member, wrong⟩ := ih failed
              exact ⟨later, List.mem_cons_of_mem _ member, wrong⟩
            · cases done

/-- Whatever keeps the graph of a request out of the queue can be held against it. -/
private theorem graph_objects {graph : Graph} {next : Queue → Except Error Change}
    (told : c.ToldBy history) (queues : request.graph? c.names = some graph)
    (failed : (do
      let queue ← c.queue.push graph
      c.checkFresh ∅ graph.members
      next queue) = .error error) :
    c.Objects history request error ∨ ∃ queue, next queue = .error error := by
  rcases except_bind_error.mp failed with pushed | ⟨queue, -, failed⟩
  · obtain ⟨latest, known, late, rfl⟩ := push_error pushed
    refine .inl (.late queues (told.latest latest known) (fun snapshot accepted => ?_) late)
    obtain ⟨highest, again, bound⟩ := told.accepted snapshot accepted
    cases known.symm.trans again
    exact bound
  · rcases except_bind_error.mp failed with unchecked | ⟨⟨⟩, -, failed⟩
    · obtain ⟨id, member, rfl, taken⟩ := checkFresh_error unchecked
      exact .inl (.duplicate queues member (taken.imp_right fun seen =>
        seen.resolve_left Std.ExtTreeSet.not_mem_empty))
    · exact .inr ⟨queue, failed⟩

/-- Whatever keeps an operation from being moved on can be held against the request. -/
private theorem move_objects {transition : Transition} {next : Status → Except Error Change}
    (moves : request.transition? = some (id, transition))
    (failed : (do
      let status ← c.statusOf id
      next status) = .error error)
    (wrong : ∀ op, c.table[id]? = some op → next op.status = .error error →
      (op.status ∉ transition.sources ∨ transition = .forceActive ∧ ForcedIn history id) ∧
        error = .invalidTransition id op.status transition) :
    c.Objects history request error := by
  rcases except_bind_error.mp failed with unread | ⟨status, read, failed⟩
  · obtain ⟨absent, rfl⟩ := statusOf_error.mp unread
    exact .notLive moves absent
  · obtain ⟨op, held, rfl⟩ := statusOf_ok.mp read
    obtain ⟨cannot, rfl⟩ := wrong op held failed
    exact .wrongStatus moves held cannot

private theorem some_change_error {checked : Except Error Change}
    (failed : (do return some (← checked)) = (Except.error error : Except Error (Option Change))) :
    checked = .error error :=
  (except_bind_error.mp failed).resolve_right fun ⟨_, _, done⟩ => nomatch done

/-- A request that a check rejects, and that does not set a hold, is rejected for a reason. -/
theorem objects_of_changeFor (told : c.ToldBy history)
    (decided : c.changeFor now request = .error error)
    (notHold : ∀ id hold, request ≠ .setHold id hold) : c.Objects history request error := by
  cases request with
  | append snapshot operations edges =>
    have queues : (Request.append snapshot operations edges).graph? c.names =
      some ⟨snapshot, operations.map (·.id)⟩ := rfl
    refine (graph_objects told queues (some_change_error decided)).elim (fun objects => objects) ?_
    rintro ⟨queue, failed⟩
    rcases except_bind_error.mp failed with unfit | ⟨_, -, done⟩
    · obtain ⟨edge, asked, ⟨outside, rfl⟩ | ⟨outside, ⟨absent, rfl⟩ | ⟨op, held, final, rfl⟩⟩⟩ :=
        edgesFromQueued_error unfit
      · exact .endsOutside queues asked outside
      · exact .startsOutside queues asked outside absent
      · exact .startsFinal queues asked outside held final
    · cases done
  | restore batch =>
    refine (graph_objects told rfl (some_change_error decided)).elim (fun objects => objects) ?_
    rintro ⟨queue, done⟩
    cases done
  | complete id =>
    refine move_objects rfl (some_change_error decided) fun op held failed => ?_
    split at failed
    · cases failed
    · rename_i wrong
      cases failed
      exact ⟨.inl (by simpa [Transition.sources] using wrong), rfl⟩
  | skip id =>
    refine move_objects rfl (some_change_error decided) fun op held failed => ?_
    split at failed
    · rename_i final
      cases failed
      refine ⟨.inl fun source => ?_, rfl⟩
      cases final.symm.trans (Transition.mem_sources_skip.mp source)
    · cases failed
  | reset id delay =>
    refine move_objects rfl (some_change_error decided) fun op held failed => ?_
    split at failed
    · cases failed
    · rename_i wrong
      cases failed
      exact ⟨.inl (by simpa [Transition.sources] using wrong), rfl⟩
  | forceActive id =>
    refine move_objects rfl (some_change_error decided) fun op held failed => ?_
    split at failed
    · cases failed
    · rename_i wrong
      cases failed
      refine ⟨?_, rfl⟩
      by_cases waiting : op.status = .pending
      · have again : id ∈ c.recovered := by simpa [waiting] using wrong
        exact .inr ⟨rfl, (told.forced id (mem_table.mpr ⟨op, held⟩)).mp again⟩
      · exact .inl (by simpa [Transition.sources] using waiting)
  | setHold id hold => exact (notHold id hold rfl).elim
  | setLimit | suspend | resume =>
    simp only [changeFor] at decided
    split at decided <;> cases decided
  | dispatch => cases decided

private theorem grants_of_move {transition : Transition} {op : Operation}
    (moves : request.transition? = some (id, transition)) (alone : request.graph? c.names = none)
    (held : c.table[id]? = some op) (source : op.status ∈ transition.sources)
    (first : transition = .forceActive → ¬ ForcedIn history id) : c.Grants history request where
  permits _ _ asked := by
    cases moves.symm.trans asked
    exact ⟨op, held, source, first⟩
  welcomes _ queues := nomatch alone.symm.trans queues

private theorem grants_of_graph {graph : Graph} (told : c.ToldBy history)
    (queues : request.graph? c.names = some graph) (alone : request.transition? = none)
    {queue : Queue} (pushed : c.queue.push graph = .ok queue) (distinct : graph.members.Nodup)
    (fresh : ∀ id ∈ graph.members, id ∉ c.table) (fit : c.EdgesFit graph.members request.edges) :
    c.Grants history request where
  permits _ _ moves := nomatch alone.symm.trans moves
  welcomes _ asked := by
    cases queues.symm.trans asked
    refine ⟨fun snapshot accepted => ?_, distinct, fresh, fit⟩
    obtain ⟨latest, known, bound⟩ := told.accepted snapshot accepted
    exact Nat.lt_of_le_of_lt bound ((push_ok pushed).1 latest known)

/-- Whatever a check lets pass is granted. -/
theorem Admits.grants (told : c.ToldBy history) (admitted : c.Admits now request change) :
    c.Grants history request := by
  cases admitted with
  | append pushed distinct fresh fit =>
    exact grants_of_graph told rfl rfl pushed distinct fresh fit
  | restore pushed distinct fresh =>
    exact grants_of_graph told rfl rfl pushed distinct fresh (List.forall_mem_nil _)
  | complete held running | reset held running =>
    exact grants_of_move rfl rfl held (by simp [Transition.sources, running]) nofun
  | skip held unfinished =>
    exact grants_of_move rfl rfl held (Transition.mem_sources_skip.mpr unfinished) nofun
  | @forceActive id op held waiting first =>
    have live : id ∈ c.table := mem_table.mpr ⟨op, held⟩
    exact grants_of_move rfl rfl held (by simp [Transition.sources, waiting]) fun _ forced =>
      first ((told.forced id live).mpr forced)
  | setHold | setLimit | suspend | resume | dispatch => exact ⟨nofun, nofun⟩

/-- A request that asks for what is the case is granted. -/
theorem grants_of_idle (idle : c.changeFor now request = .ok none) :
    c.Grants history request := by
  refine ⟨?_, fun graph queues => nomatch (idle_quiet idle).1.symm.trans queues⟩
  intro id transition moves
  cases request with
  | append | restore | setHold | setLimit | suspend | resume | dispatch => cases moves
  | complete | skip | reset | forceActive =>
    obtain ⟨_, -, done⟩ := except_bind_ok.mp idle
    cases done

end Core

section Run
variable {names : Names} {algorithm : Algorithm} {start : Memory} {history : List Entry}
  {e : Engine Memory}

/-- In every run over a memory that nobody else writes to, and that is not locked, each request but
one that sets a hold is accepted if and only if the live operations and the history grant it; and if
it is not, it was decided on before anything was written, with an error that tells what is the
case. -/
theorem granted_iff_accepted (reachable : start.Reachable)
    (run : SoleRun names algorithm start history e) (unlocked : e.store.readOnly = false)
    (now : Instant) {request : Request} (notHold : ∀ id hold, request ≠ .setHold id hold) :
    ((∃ step, (e.apply now request).1 = .ok step) ↔ e.core.Grants history request) ∧
    ∀ error, (e.apply now request).1 = .error error →
      e.core.changeFor now request = .error error ∧ e.core.Objects history request error := by
  have told := run.run.toldBy
  have obliges := ((run.mirrored reachable.indexed).serves run.run.sound.filed unlocked).obliges
  cases decided : e.core.changeFor now request with
  | error error =>
    rw [Engine.apply_error decided]
    have objects := Core.objects_of_changeFor told decided notHold
    refine ⟨⟨fun ⟨_, done⟩ => (nomatch done), fun grants => (objects.not_grants grants).elim⟩, ?_⟩
    rintro _ ⟨⟩
    exact ⟨rfl, objects⟩
  | ok found =>
    cases found with
    | none =>
      rw [Engine.apply_idle decided]
      exact ⟨iff_of_true ⟨_, rfl⟩ (Core.grants_of_idle decided), nofun⟩
    | some change =>
      have admitted := Core.admits_of_changeFor decided
      obtain ⟨store, wrote⟩ := Engine.write_taken obliges admitted
        fun id hold same => (notHold id hold same).elim
      rw [Engine.apply_done decided wrote]
      exact ⟨iff_of_true ⟨_, rfl⟩ (admitted.grants told), nofun⟩

private theorem error_of_answer {answer : Except Error Step} {error : Error}
    (answered : answer.map (fun _ => ()) = .error error) : answer = .error error := by
  cases answer with
  | error found => exact congrArg _ (Except.error.inj answered)
  | ok step => cases answered

/-- The record of an earlier run: a commit of two operations, the second waiting for the first. -/
def waitingPair : Batch where
  snapshot := 1
  operations := [
    { Operation.new (.ofNat 1) with pipeline := "uploads", snapshot := 1 },
    { Operation.new (.ofNat 2) with
      pipeline := "uploads"
      snapshot := 1
      dependencies := Std.ExtTreeSet.ofList [OperationId.ofNat 1] }]

/-- The commit is restored, which starts the first operation; the second is activated from outside
and given back, and a commit without operations follows. The latest call is first. -/
def forcedAndGivenBack : List Call := [
  .request .first (.append 3 [] []),
  .request .first (.reset (.ofNat 2) none),
  .request .first (.forceActive (.ofNat 2)),
  .request .first (.restore waitingPair)]

theorem second_activation_denied :
    let start := (Memory.empty.perform (.save 1 waitingPair.operations [])).2
    let run := runOf (.new "uploads" []) .commitGraph start forcedAndGivenBack
    start.Reachable ∧ run.2.store.readOnly = false ∧
      run.2.core.Grants run.1 (.complete (.ofNat 1)) ∧
      run.2.core.Objects run.1 (.forceActive (.ofNat 2))
        (.invalidTransition (.ofNat 2) .pending .forceActive) ∧
      run.2.core.Objects run.1 (.append 3 [.new (.ofNat 3)] []) (.orderingViolation 3 3) ∧
      run.2.core.Objects run.1 (.append 4 [.new (.ofNat 3)] [⟨.ofNat 4, .ofNat 3⟩])
        (.unknownOperation (.ofNat 4)) := by
  intro start run
  have reachable : start.Reachable := .write .empty _
  have unlocked : run.2.store.readOnly = false := by decide +kernel
  have sole : SoleRun (.new "uploads" []) .commitGraph start run.1 run.2 := .of_calls ..
  have granted {request : Request} (notHold : ∀ id hold, request ≠ .setHold id hold)
      (answered : (run.2.apply .first request).1.isOk = true) : run.2.core.Grants run.1 request :=
    (granted_iff_accepted reachable sole unlocked .first notHold).1.mp (except_isOk.mp answered)
  have denied {request : Request} {error : Error} (notHold : ∀ id hold, request ≠ .setHold id hold)
      (answered : (run.2.apply .first request).1.map (fun _ => ()) = .error error) :
      run.2.core.Objects run.1 request error :=
    ((granted_iff_accepted reachable sole unlocked .first notHold).2 error
      (error_of_answer answered)).2
  exact ⟨reachable, unlocked, granted (fun _ _ => nofun) (by decide +kernel),
    denied (fun _ _ => nofun) (by decide +kernel), denied (fun _ _ => nofun) (by decide +kernel),
    denied (fun _ _ => nofun) (by decide +kernel)⟩

end Run
end CommitPipeline
