import Mathlib.Data.List.Pairwise
import CommitPipeline.Proofs.DispatchOrder
import CommitPipeline.Proofs.Relaunch
import CommitPipeline.Proofs.Relinking

/-! The order of the commits, spelled out as dependencies. When graphs run one at a time, an
operation waits for its dependencies in its own commit and for every commit before that. With just
these as its dependencies it waits for the same when all graphs are considered: the operations that
may start are the same, in the same order. What is behind this is that nothing is forgotten. An
operation of an earlier commit is live or known to be final, and it cannot be live in the graph of
another commit as long as no commit brings an identifier a second time. -/
namespace CommitPipeline

/-- The graphs that calls have queued, the latest first. -/
def queuedGraphs (history : List Entry) : List Graph := history.filterMap (·.queued?)

/-- The dependencies within a commit, together with all that was committed before. -/
def spelledOut (own earlier : List OperationId) (dependencies : IdSet) : IdSet :=
  (dependencies.filter (own.contains ·)).insertMany earlier

/-- The order of some commits, spelled out for the operations of each of them. -/
def Links.ofCommits (graphs : List Graph) : Links := fun snapshot =>
  spelledOut ((graphs.filter (·.snapshot = snapshot)).flatMap (·.members))
    ((graphs.filter (·.snapshot < snapshot)).flatMap (·.members))

/-- The request with the order of the commits spelled out, given what was committed before. -/
def Request.spelledOut (earlier : List OperationId) : Request → Request
  | .append snapshot operations edges =>
    .append snapshot
      (operations.map fun op => { op with
        dependencies := CommitPipeline.spelledOut (operations.map (·.id)) earlier op.dependencies })
      edges
  | request => request

theorem mem_spelledOut {own earlier : List OperationId} {dependencies : IdSet} {id : OperationId} :
    id ∈ spelledOut own earlier dependencies ↔ (id ∈ dependencies ∧ id ∈ own) ∨ id ∈ earlier := by
  simp [spelledOut, Std.ExtTreeSet.mem_insertMany_list, Std.ExtTreeSet.mem_filter]

/-- Spelling out the order of the commits gives the operations other dependencies. -/
theorem Request.spelledOut_eq_relink (earlier : List OperationId) (request : Request) :
    ∃ links, request.spelledOut earlier = request.relink links := by
  cases request with
  | append _ operations =>
    refine ⟨fun _ => CommitPipeline.spelledOut (operations.map (·.id)) earlier, ?_⟩
    rw [spelledOut, relink]
  | restore | complete | skip | reset | forceActive | setHold | setLimit | suspend | resume
  | dispatch => exact ⟨fun _ => id, rfl⟩

namespace Links
variable {graph : Graph} {graphs : List Graph}

/-- A commit changes nothing of what those before it wait for. -/
theorem ofCommits_earlier {snapshot : Nat} (lower : snapshot < graph.snapshot) :
    ofCommits (graph :: graphs) snapshot = ofCommits graphs snapshot := by
  have differs : ¬ graph.snapshot = snapshot := (Nat.ne_of_lt lower).symm
  simp [ofCommits, differs, Nat.not_lt.mpr lower.le]

/-- The latest commit waits for everything before it. -/
theorem ofCommits_latest (above : ∀ earlier ∈ graphs, earlier.snapshot < graph.snapshot) :
    ofCommits (graph :: graphs) graph.snapshot =
      spelledOut graph.members (graphs.flatMap (·.members)) := by
  have own : graphs.filter (·.snapshot = graph.snapshot) = [] :=
    List.filter_eq_nil_iff.mpr fun earlier member => by simpa using (above earlier member).ne
  have all : graphs.filter (·.snapshot < graph.snapshot) = graphs :=
    List.filter_eq_self.mpr fun earlier member => by simpa using above earlier member
  simp [ofCommits, own, all]

end Links

/-! ### The order of the candidates -/

namespace Listed

theorem insertByPriority_map (change : Listed → Listed)
    (kept : ∀ entry : Listed, (change entry).operation.priority = entry.operation.priority)
    (entry : Listed) (entries : List Listed) :
    insertByPriority (change entry) (entries.map change) =
      (insertByPriority entry entries).map change := by
  induction entries with
  | nil => rfl
  | cons other rest ih =>
    rw [List.map_cons, insertByPriority, insertByPriority, kept, kept, ih]
    split <;> rfl

/-- Entries are put into the same order whatever is changed of them, but for their priorities. -/
theorem byPriority_map (change : Listed → Listed)
    (kept : ∀ entry : Listed, (change entry).operation.priority = entry.operation.priority)
    (entries : List Listed) :
    byPriority (entries.map change) = (byPriority entries).map change := by
  induction entries with
  | nil => rfl
  | cons entry rest ih =>
    exact (congrArg (insertByPriority (change entry)) ih).trans
      (insertByPriority_map change kept entry _)

def relink (links : Links) (entry : Listed) : Listed :=
  { entry with operation := entry.operation.relink links }

theorem ofGraphs_relink (links : Links) (table : Table) (index : Nat) (graphs : List Graph) :
    ofGraphs (table.relink links) index graphs =
      (ofGraphs table index graphs).map (relink links) := by
  induction graphs generalizing index with
  | nil => rfl
  | cons graph rest ih =>
    rw [ofGraphs, ofGraphs, List.map_append, ih, List.map_filterMap]
    congr 2
    funext id
    rw [Table.lookup_relink]
    cases table[id]? <;> rfl

end Listed

/-- When graphs run one at a time, those of the oldest graph are drawn from. -/
theorem Readiness.inCandidateGraph_commitGraph {r : Readiness} {op : Operation}
    (inOrder : r.algorithm = .commitGraph) : r.inCandidateGraph op = true ↔
      ∃ graph, r.queue.oldest? = some graph ∧ graph.snapshot = op.snapshot := by
  rw [inCandidateGraph, inOrder]
  cases r.queue.oldest? <;> simp

/-! ### What was committed -/

namespace Core
variable {c after : Core} {history : List Entry} {id : OperationId} {op : Operation} {graph : Graph}
  {now : Instant} {request : Request} {links : Links}

/-- A sound pipeline forgets nothing that its history has queued. The graphs in the queue are some
of those of the history, and these were accepted in the order of their commits. -/
structure Chronicled (c : Core) (history : List Entry) : Prop where
  sound : c.Sound history
  remembers : c.Remembers history
  queued : ∀ graph ∈ c.queue.graphs, graph ∈ queuedGraphs history
  descending : (queuedGraphs history).Pairwise (·.snapshot > ·.snapshot)

theorem chronicled_new (names : Names) (algorithm : Algorithm) :
    (new names algorithm).Chronicled [] where
  sound := sound_new names algorithm
  remembers := List.forall_mem_nil _
  queued := List.forall_mem_nil _
  descending := .nil

theorem queuedGraphs_cons {entry : Entry} :
    queuedGraphs (entry :: history) = entry.queued?.toList ++ queuedGraphs history := by
  rw [queuedGraphs, List.filterMap_cons]
  cases entry.queued? <;> rfl

theorem queuedGraphs_accepted (step : Step) :
    queuedGraphs (⟨c, .request now request, .ok step⟩ :: history) =
      (request.graph? c.names).toList ++ queuedGraphs history := queuedGraphs_cons

theorem queuedGraphs_idle (idle : c.changeFor now request = .ok none) (history : List Entry) :
    queuedGraphs (⟨c, .request now request, .ok .empty⟩ :: history) = queuedGraphs history := by
  rw [queuedGraphs_accepted, (idle_quiet idle).1]
  rfl

/-- A graph that a request brings belongs to a later commit than all graphs before it. -/
theorem Admits.above {change : Change} (recorded : c.Recorded history)
    (admitted : c.Admits now request change) (found : request.graph? c.names = some graph) :
    ∀ earlier ∈ queuedGraphs history, earlier.snapshot < graph.snapshot := by
  intro earlier member
  rcases admitted.cases_batch with ⟨_, _, _, _, fits, answers, -⟩ | kept
  · cases answers.graph.symm.trans found
    obtain ⟨entry, listed, queued⟩ := List.mem_filterMap.mp member
    obtain ⟨latest, known, bound⟩ := recorded.accepted entry listed earlier queued
    exact Nat.lt_of_le_of_lt bound ((push_ok fits.pushed).1 latest known)
  · cases kept.2.2.1.symm.trans found

/-- Every answer to a request keeps a pipeline true to its history. -/
theorem Chronicled.answered {answer : Except Error Step} (chronicled : c.Chronicled history)
    (answers : c.Answers now request answer after) :
    after.Chronicled (⟨c, .request now request, answer⟩ :: history) := by
  have sound := chronicled.sound.answered answers
  have remembers := chronicled.remembers.answered chronicled.sound.filed answers
  cases answers with
  | rejected error => exact ⟨sound, remembers, chronicled.queued, chronicled.descending⟩
  | idle idle =>
    have same := queuedGraphs_idle idle history
    exact ⟨sound, remembers, same ▸ chronicled.queued, same ▸ chronicled.descending⟩
  | @accepted change operations admitted dispatches =>
    refine ⟨sound, remembers, fun graph queued => ?_, ?_⟩ <;> rw [queuedGraphs_cons]
    · change graph ∈ (request.graph? c.names).toList ++ _
      rw [List.mem_append]
      obtain ⟨queued, -⟩ := mem_settled_graphs.mp queued
      rcases admitted.cases_batch with ⟨_, _, _, _, fits, answers, rfl⟩ | ⟨queue, -⟩
      · refine (mem_batch_graphs fits queued).symm.imp (fun same => ?_) (chronicled.queued graph)
        rw [answers.graph, same]
        exact List.mem_cons_self
      · exact .inr (chronicled.queued graph (queue ▸ queued))
    · change ((request.graph? c.names).toList ++ _).Pairwise _
      cases found : request.graph? c.names with
      | none => exact chronicled.descending
      | some graph =>
        exact List.pairwise_cons.mpr
          ⟨admitted.above chronicled.sound.recorded found, chronicled.descending⟩

section Chronicled
variable (chronicled : c.Chronicled history)
include chronicled

/-- The history has one graph for each commit. -/
theorem Chronicled.one_graph {one other : Graph} (oneMember : one ∈ queuedGraphs history)
    (otherMember : other ∈ queuedGraphs history) (same : one.snapshot = other.snapshot) :
    one = other := by
  have distinct : ((queuedGraphs history).map (·.snapshot)).Nodup :=
    List.pairwise_map.mpr (chronicled.descending.imp Nat.ne_of_gt)
  exact List.inj_on_of_nodup_map distinct oneMember otherMember same

/-- The identifiers of the commit of a queued graph are its members. -/
theorem Chronicled.mem_own (queued : graph ∈ c.queue.graphs) :
    id ∈ ((queuedGraphs history).filter (·.snapshot = graph.snapshot)).flatMap (·.members) ↔
      id ∈ graph.members := by
  have listed := chronicled.queued graph queued
  simp only [List.mem_flatMap, List.mem_filter, decide_eq_true_eq]
  constructor
  · rintro ⟨other, ⟨otherListed, same⟩, member⟩
    exact chronicled.one_graph otherListed listed same ▸ member
  · exact fun member => ⟨graph, ⟨listed, rfl⟩, member⟩

end Chronicled

/-! ### What a commit adds -/

/-- Only the dependencies of the live operations matter. -/
theorem relink_congr {other : Links} (same : ∀ (id : OperationId) (op : Operation),
    c.table[id]? = some op → links op.snapshot = other op.snapshot) :
    c.relink links = c.relink other := by
  have tables : c.table.relink links = c.table.relink other := by
    ext1 id
    rw [Table.lookup_relink, Table.lookup_relink]
    cases held : c.table[id]? with
    | none => rfl
    | some op => simp only [Option.map_some, Operation.relink, same id op held]
  rw [relink, relink, tables]

/-- A new commit leaves what is spelled out for the live operations as it is. -/
theorem Chronicled.relink_accepted {change : Change} (chronicled : c.Chronicled history)
    (admitted : c.Admits now request change) (step : Step) :
    c.relink (Links.ofCommits (queuedGraphs history)) =
      c.relink (Links.ofCommits
        (queuedGraphs (⟨c, .request now request, .ok step⟩ :: history))) := by
  rw [queuedGraphs_accepted]
  cases found : request.graph? c.names with
  | none => rfl
  | some graph =>
    refine relink_congr fun id op held => (Links.ofCommits_earlier ?_).symm
    obtain ⟨home, queued, -, snapshot⟩ := chronicled.sound.filed.graph_of held
    rw [snapshot]
    exact admitted.above chronicled.sound.recorded found home (chronicled.queued home queued)

/-- What is spelled out for a new commit is what it waits for from then on. -/
theorem Chronicled.spelledOut_accepted {change : Change} (chronicled : c.Chronicled history)
    (admitted : c.Admits now request change) (step : Step) :
    request.spelledOut (everQueued history) =
      request.relink (Links.ofCommits
        (queuedGraphs (⟨c, .request now request, .ok step⟩ :: history))) := by
  rw [queuedGraphs_accepted]
  cases request with
  | append snapshot operations edges =>
    have latest := Links.ofCommits_latest (admitted.above chronicled.sound.recorded rfl)
    simp only [Request.spelledOut, Request.relink, Request.graph?, Option.toList_some,
      List.singleton_append, latest]
    rfl
  | restore | complete | skip | reset | forceActive | setHold | setLimit | suspend | resume
  | dispatch => rfl

/-! ### What an operation waits for -/

/-- What the new dependencies are makes no difference to whether one of them is met. -/
theorem isUnmet_relink : (c.relink links).readiness.isUnmet op id = false ↔
    (∃ other, c.table[id]? = some other ∧ other.status.isFinal = true) ∨
      (id ∉ c.table ∧ id ∈ c.retired) := by
  rw [Readiness.isUnmet_flatGraph rfl, mem_table, mem_table]
  simp only [readiness, relink, Table.lookup_relink]
  cases c.table[id]? <;> simp [Operation.relink]

/-- No commit brings an identifier a second time: one that is live in a graph was queued with it. -/
theorem Chronicled.same_graph {other : Graph} (chronicled : c.Chronicled history)
    (distinct : (everQueued history).Nodup) (queued : graph ∈ c.queue.graphs)
    (listed : other ∈ queuedGraphs history) (member : id ∈ graph.members)
    (otherMember : id ∈ other.members) : other = graph := by
  by_contra different
  have apart := (List.nodup_flatMap.mp distinct).2
  have symm : Std.Symm (Function.onFun List.Disjoint fun graph : Graph => graph.members) :=
    ⟨fun _ _ disjoint _ here there => disjoint there here⟩
  exact apart.forall listed (chronicled.queued graph queued) different otherMember member

/-- A graph is the oldest one if and only if nothing of the commits before its own holds up an
operation that waits for all of it. -/
theorem Chronicled.oldest_iff (chronicled : c.Chronicled history)
    (distinct : (everQueued history).Nodup) (queued : graph ∈ c.queue.graphs) (links : Links)
    (op : Operation) : c.queue.oldest? = some graph ↔
      ∀ id ∈ ((queuedGraphs history).filter (·.snapshot < graph.snapshot)).flatMap (·.members),
        (c.relink links).readiness.isUnmet op id = false := by
  have filed := chronicled.sound.filed
  simp only [List.mem_flatMap, List.mem_filter, decide_eq_true_eq, isUnmet_relink]
  constructor
  · -- An identifier of an earlier commit would be live in that commit's graph, which is gone.
    rintro oldest id ⟨other, ⟨listed, lower⟩, member⟩
    have gone : id ∉ c.table := by
      intro live
      obtain ⟨home, homeQueued, homeMember⟩ := (filed.listed id).mp live
      have same := chronicled.same_graph distinct homeQueued listed homeMember member
      exact absurd (filed.oldest_le oldest homeQueued) (Nat.not_le.mpr (same ▸ lower))
    have known : id ∈ everQueued history := List.mem_flatMap.mpr ⟨other, listed, member⟩
    exact .inr ⟨gone, (chronicled.remembers id known).resolve_left gone⟩
  · -- The graph that is the oldest instead has an unfinished member, since drained graphs go.
    intro met
    cases oldest : c.queue.oldest? with
    | none => exact absurd queued (by simp [List.head?_eq_none_iff.mp oldest])
    | some first =>
      by_contra different
      have firstQueued : first ∈ c.queue.graphs := List.mem_of_head? oldest
      have lower : first.snapshot < graph.snapshot :=
        Nat.lt_of_le_of_ne (filed.oldest_le oldest queued) fun same =>
          different (congrArg some (eq_of_snapshot_eq filed.ascending firstQueued queued same))
      obtain ⟨id, member, other, held, unfinished⟩ := chronicled.sound.busy first firstQueued
      rcases met id ⟨first, ⟨chronicled.queued first firstQueued, lower⟩, member⟩ with
        ⟨again, found, final⟩ | ⟨gone, -⟩
      · cases held.symm.trans found
        cases unfinished.symm.trans final
      · exact gone (mem_table.mpr ⟨other, held⟩)

/-- When graphs run one at a time, a dependency holds an operation up if it stands in the same graph
and is not final. -/
theorem Filed.isUnmet_within (filed : c.Filed) (inOrder : c.algorithm = .commitGraph)
    (queued : graph ∈ c.queue.graphs) (snapshot : op.snapshot = graph.snapshot) :
    c.readiness.isUnmet op id = false ↔ (id ∈ graph.members →
      ∃ other, c.table[id]? = some other ∧ other.status.isFinal = true) := by
  rw [Readiness.isUnmet_commitGraph inOrder]
  constructor
  · intro met member
    obtain ⟨other, held⟩ := filed.live queued member
    have together := (filed.snapshot graph queued id member other held).trans snapshot.symm
    exact ⟨other, held, met other held together⟩
  · intro final other held together
    obtain ⟨home, homeQueued, member, homeSnapshot⟩ := filed.graph_of held
    have same : home = graph := eq_of_snapshot_eq filed.ascending homeQueued queued
      (homeSnapshot.symm.trans (together.trans snapshot))
    obtain ⟨again, found, isFinal⟩ := final (same ▸ member)
    cases held.symm.trans found
    exact isFinal

/-- When graphs run one at a time, an operation waits for those of its dependencies that stand in
its own graph. -/
theorem Filed.met_iff (filed : c.Filed) (inOrder : c.algorithm = .commitGraph)
    (queued : graph ∈ c.queue.graphs) (snapshot : op.snapshot = graph.snapshot) (links : Links) :
    c.readiness.isUnmet op id = false ↔
      (id ∈ graph.members → (c.relink links).readiness.isUnmet (op.relink links) id = false) := by
  rw [filed.isUnmet_within inOrder queued snapshot, isUnmet_relink]
  refine imp_congr_right fun member => (or_iff_left ?_).symm
  rintro ⟨gone, -⟩
  exact gone ((filed.listed id).mpr ⟨graph, queued, member⟩)

theorem Chronicled.isReady_relink (chronicled : c.Chronicled history)
    (distinct : (everQueued history).Nodup) (inOrder : c.algorithm = .commitGraph)
    (held : c.table[id]? = some op) :
    let links := Links.ofCommits (queuedGraphs history)
    (c.relink links).readiness.isReady (op.relink links) now = c.readiness.isReady op now := by
  intro links
  have filed := chronicled.sound.filed
  obtain ⟨graph, queued, -, snapshot⟩ := filed.graph_of held
  have candidate : c.readiness.inCandidateGraph op = true ↔ c.queue.oldest? = some graph := by
    rw [Readiness.inCandidateGraph_commitGraph inOrder, snapshot]
    constructor
    · rintro ⟨first, oldest, same⟩
      exact eq_of_snapshot_eq filed.ascending (List.mem_of_head? oldest) queued same ▸ oldest
    · exact fun oldest => ⟨graph, oldest, rfl⟩
  have dependencies (dependency : OperationId) : dependency ∈ (op.relink links).dependencies ↔
      (dependency ∈ op.dependencies ∧ dependency ∈ graph.members) ∨
      dependency ∈ ((queuedGraphs history).filter (·.snapshot < graph.snapshot)).flatMap
        (·.members) := by
    rw [← snapshot, ← chronicled.mem_own queued, ← snapshot]
    exact mem_spelledOut
  have waits : (∀ dependency ∈ (op.relink links).dependencies,
        (c.relink links).readiness.isUnmet (op.relink links) dependency = false) ↔
      c.queue.oldest? = some graph ∧
        ∀ dependency ∈ op.dependencies, c.readiness.isUnmet op dependency = false := by
    simp only [dependencies, or_imp, forall_and, and_imp,
      filed.met_iff inOrder queued snapshot links,
      ← chronicled.oldest_iff distinct queued links (op.relink links)]
    exact and_comm
  rw [Bool.eq_iff_iff, Readiness.isReady_iff, Readiness.isReady_iff, candidate, waits]
  constructor
  · exact fun ⟨pending, _, notHeld, oldest, met⟩ => ⟨pending, oldest, notHeld, met⟩
  · exact fun ⟨pending, oldest, notHeld, met⟩ => ⟨pending, rfl, notHeld, oldest, met⟩

/-- When graphs run one at a time, it makes no difference to consider the operations of all of them:
only those of the oldest one may start. -/
theorem Filed.ready_eq (filed : c.Filed) (inOrder : c.algorithm = .commitGraph) : c.ready now =
    (Listed.byPriority ((Listed.ofGraphs c.table 0 c.queue.graphs).filter fun entry =>
      c.readiness.isReady entry.operation now)).map (·.id) := by
  have algorithm : c.readiness.algorithm = .commitGraph := inOrder
  rw [ready, Readiness.ready, Readiness.considered, Readiness.candidates, algorithm]
  change (Listed.byPriority
    ((Listed.ofGraphs c.table 0 (c.queue.graphs.take 1)).filter _)).map _ = _
  cases graphs : c.queue.graphs with
  | nil => rfl
  | cons first rest =>
    have later : (Listed.ofGraphs c.table 1 rest).filter
        (fun entry => c.readiness.isReady entry.operation now) = [] := by
      refine List.filter_eq_nil_iff.mpr fun entry member isReady => ?_
      obtain ⟨place, graph, found, -, listed, held⟩ := Listed.mem_ofGraphs.mp member
      have isLater := List.mem_of_getElem? found
      have ascending := List.pairwise_cons.mp (graphs ▸ filed.ascending)
      have snapshot := filed.snapshot graph (graphs ▸ List.mem_cons_of_mem first isLater) entry.id
        listed entry.operation held
      obtain ⟨oldest, isOldest, same⟩ := (Readiness.inCandidateGraph_commitGraph algorithm).mp
        (Readiness.isReady_iff.mp isReady).2.1
      cases (congrArg List.head? graphs).symm.trans isOldest
      exact absurd (ascending.1 graph isLater) (Nat.not_lt.mpr (snapshot.symm.trans same.symm).le)
    rw [List.take_succ_cons, List.take_zero, Listed.ofGraphs, Listed.ofGraphs, Listed.ofGraphs,
      List.filter_append, List.filter_append, later]
    rfl

/-- The order of the commits makes an operation wait for as much as its spelled-out dependencies do:
what may start is the same, in the same order. -/
theorem Chronicled.ready_relink (chronicled : c.Chronicled history)
    (distinct : (everQueued history).Nodup) (inOrder : c.algorithm = .commitGraph)
    (now : Instant) :
    (c.relink (Links.ofCommits (queuedGraphs history))).ready now = c.ready now := by
  rw [chronicled.sound.filed.ready_eq inOrder]
  change (Listed.byPriority
    ((Listed.ofGraphs (c.table.relink _) 0 c.queue.graphs).filter fun entry =>
      (c.relink _).readiness.isReady entry.operation now)).map (·.id) = _
  rw [Listed.ofGraphs_relink, List.filter_map,
    Listed.byPriority_map (Listed.relink _) fun _ => rfl, List.map_map]
  refine congrArg (fun entries => (Listed.byPriority entries).map (·.id)) ?_
  refine List.filter_congr fun entry member => ?_
  obtain ⟨_, _, -, -, -, held⟩ := Listed.mem_ofGraphs.mp member
  exact chronicled.isReady_relink distinct inOrder held

/-- This holds, too, before the last pass of an accepted call, once the drained graphs are gone. -/
theorem Chronicled.ready_pruned {change : Change} (chronicled : c.Chronicled history)
    (inOrder : c.algorithm = .commitGraph) (admitted : c.Admits now request change) (step : Step)
    (distinct : (everQueued (⟨c, .request now request, .ok step⟩ :: history)).Nodup) :
    let links := Links.ofCommits
      (queuedGraphs (⟨c, .request now request, .ok step⟩ :: history))
    (change.core.prune.2.relink links).ready now = change.core.prune.2.ready now := by
  -- The state before the pass is the one that a pass leaves in which every start is refused.
  have noStart : change.core.prune.2.Dispatches now [] :=
    ⟨List.nil_sublist _, Nat.zero_le _, List.forall_mem_nil _⟩
  have answers := Answers.accepted admitted noStart
  have algorithm := answers.algorithm.trans inOrder
  exact (chronicled.answered answers).ready_relink distinct algorithm now

end Core
end CommitPipeline
