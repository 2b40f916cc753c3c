import CommitPipeline.Proofs.History
import CommitPipeline.Proofs.StoredRecords
import CommitPipeline.Store.Refusing

/-! The store keeps a copy of what is left to do. Each change of a pipeline is written first and
made in memory afterwards, by separate code; whatever write is refused, and in the middle of
whichever call, the records of the pipeline stay equal to its unfinished operations, in queue order
for each snapshot. -/
namespace CommitPipeline

namespace Core
variable {c after : Core} {start m : Memory} {id : OperationId} {op : Operation} {snapshot : Nat}
  {edit : Operation → Operation}

/-- The live operation with an identifier, unless it is final. -/
def unfinished? (c : Core) (id : OperationId) : Option Operation :=
  c.table[id]?.filter fun op => !op.status.isFinal

/-- The members of the graph of a snapshot. -/
def membersAt (c : Core) (snapshot : Nat) : List OperationId :=
  (c.queue.graphs.filter (·.snapshot = snapshot)).flatMap (·.members)

/-- The operations of a snapshot that are left to do, in the order of their graph. -/
def outstandingAt (c : Core) (snapshot : Nat) : List Operation :=
  (c.membersAt snapshot).filterMap c.unfinished?

theorem unfinished?_eq_some :
    c.unfinished? id = some op ↔ c.table[id]? = some op ∧ op.status.isFinal = false := by
  rw [unfinished?, Option.filter_eq_some_iff, Bool.not_eq_true']

theorem unfinished?_eq_none :
    c.unfinished? id = none ↔ ∀ op, c.table[id]? = some op → op.status.isFinal = true := by
  rw [unfinished?]
  cases c.table[id]? <;> simp

theorem mem_membersAt : id ∈ c.membersAt snapshot ↔
    ∃ graph ∈ c.queue.graphs, graph.snapshot = snapshot ∧ id ∈ graph.members := by
  simp only [membersAt, List.mem_flatMap, List.mem_filter, decide_eq_true_eq, and_assoc]

theorem membersAt_of_graphs (graphs : after.queue.graphs = c.queue.graphs) (snapshot : Nat) :
    after.membersAt snapshot = c.membersAt snapshot := by
  rw [membersAt, membersAt, graphs]

theorem mem_outstandingAt (keyed : c.table.Keyed) : op ∈ c.outstandingAt snapshot ↔
    op.id ∈ c.membersAt snapshot ∧ c.unfinished? op.id = some op := by
  rw [outstandingAt, List.mem_filterMap]
  constructor
  · rintro ⟨id, member, found⟩
    have named := keyed id op (unfinished?_eq_some.mp found).1
    exact named ▸ ⟨member, found⟩
  · rintro ⟨member, found⟩
    exact ⟨op.id, member, found⟩

theorem Filed.membersAt_nodup (filed : c.Filed) (snapshot : Nat) :
    (c.membersAt snapshot).Nodup :=
  (List.filter_sublist.flatMap _).nodup filed.distinct

theorem Filed.mem_membersAt (filed : c.Filed) (held : c.table[id]? = some op) :
    id ∈ c.membersAt op.snapshot := by
  obtain ⟨graph, queued, member, same⟩ := filed.graph_of held
  exact Core.mem_membersAt.mpr ⟨graph, queued, same.symm, member⟩

/-- A memory holds the unfinished operations of a pipeline, those of each snapshot in the order of
their graph. All else that it holds was there at the start and has no live identifier. -/
structure Mirrored (c : Core) (start m : Memory) : Prop where
  indexed : m.Indexed
  records : ∀ snapshot : Nat,
    ((m.recordsAt snapshot).filter fun op => (c.unfinished? op.id).isSome) =
      c.outstandingAt snapshot
  others : ∀ snapshot : Nat, ∀ op ∈ m.recordsAt snapshot, c.unfinished? op.id = none →
    op.id ∉ c.table ∧ op ∈ start.recordsAt snapshot

/-- A new pipeline has nothing to do. -/
theorem mirrored_new (names : Names) (algorithm : Algorithm) (indexed : start.Indexed) :
    (new names algorithm).Mirrored start start where
  indexed
  records snapshot := by simp [outstandingAt, membersAt, unfinished?, new, Queue.empty]
  others snapshot op member _ := ⟨by simp [new], member⟩

/-! ### What the records say -/

theorem Mirrored.mem_recordsAt (mirrored : c.Mirrored start m) (filed : c.Filed)
    (held : c.table[id]? = some op) (unfinished : op.status.isFinal = false) :
    op ∈ m.recordsAt op.snapshot := by
  have named := filed.keyed id op held
  have outstanding : op ∈ c.outstandingAt op.snapshot :=
    (mem_outstandingAt filed.keyed).mpr
      ⟨named ▸ filed.mem_membersAt held, unfinished?_eq_some.mpr ⟨named ▸ held, unfinished⟩⟩
  rw [← mirrored.records] at outstanding
  exact (List.mem_filter.mp outstanding).1

/-- A record with the identifier of an unfinished operation is that operation. -/
theorem Mirrored.record_eq {record : Operation} (mirrored : c.Mirrored start m) (filed : c.Filed)
    (member : record ∈ m.recordsAt snapshot) (found : c.unfinished? record.id = some op) :
    record = op := by
  have outstanding : record ∈ c.outstandingAt snapshot := by
    rw [← mirrored.records]
    exact List.mem_filter.mpr ⟨member, by rw [found]; rfl⟩
  exact Option.some.inj (((mem_outstandingAt filed.keyed).mp outstanding).2.symm.trans found)

/-- The record of a live operation is the operation itself, and a final one has none. -/
theorem Mirrored.get?_live (mirrored : c.Mirrored start m) (filed : c.Filed)
    (held : c.table[id]? = some op) : m.get? id = if op.status.isFinal then none else some op := by
  have named := filed.keyed id op held
  cases final : op.status.isFinal with
  | true =>
    cases found : m.get? id with
    | none => rfl
    | some record =>
      obtain ⟨same, snapshot, member⟩ := Memory.mem_of_get? found
      have through : c.unfinished? record.id = none := unfinished?_eq_none.mpr fun other held' => by
        cases (same ▸ held).symm.trans held'
        exact final
      have dead := (mirrored.others snapshot record member through).1
      exact (dead (same ▸ mem_table.mpr ⟨op, held⟩)).elim
  | false =>
    have found : c.unfinished? op.id = some op := unfinished?_eq_some.mpr ⟨named ▸ held, final⟩
    rw [← named]
    exact Memory.get?_of_mem mirrored.indexed (mirrored.mem_recordsAt filed held final)
      fun other member same => mirrored.record_eq filed member (same ▸ found)

theorem Mirrored.known (mirrored : c.Mirrored start m) (filed : c.Filed)
    (held : c.table[id]? = some op) (unfinished : op.status.isFinal = false) :
    id ∈ m.snapshotOf := by
  have record := mirrored.get?_live filed held
  rw [unfinished] at record
  exact Memory.known_of_get? record

/-! ### One change, in both places -/

/-- Queue and table alone decide what a memory has to hold. -/
theorem Mirrored.of_same (mirrored : c.Mirrored start m)
    (graphs : after.queue.graphs = c.queue.graphs) (table : after.table = c.table) :
    after.Mirrored start m where
  indexed := mirrored.indexed
  records snapshot := by
    have same : after.unfinished? = c.unfinished? := funext fun id => by
      rw [unfinished?, unfinished?, table]
    rw [outstandingAt, membersAt_of_graphs graphs, same]
    exact mirrored.records snapshot
  others snapshot op member through := by
    rw [unfinished?, table] at through
    rw [table]
    exact mirrored.others snapshot op member through

/-- In a list without repetitions one operation is changed by its identifier. -/
private theorem filterMap_changeFirst {found : OperationId → Option Operation}
    (keyed : ∀ other op, found other = some op → op.id = other) (held : found id = some op)
    {ids : List OperationId} (distinct : ids.Nodup) :
    (ids.filterMap fun other => if id = other then some (edit op) else found other) =
      Memory.changeFirst id edit (ids.filterMap found) := by
  induction ids with
  | nil => rfl
  | cons first rest ih =>
    obtain ⟨absent, distinctRest⟩ := List.nodup_cons.mp distinct
    by_cases here : id = first
    · subst here
      have elsewhere : (rest.filterMap fun other =>
          if id = other then some (edit op) else found other) = rest.filterMap found :=
        List.filterMap_congr fun other member => if_neg fun same => by
          rw [same] at absent
          exact absent member
      simp only [List.filterMap_cons, ↓reduceIte, held, Memory.changeFirst, keyed id op held,
        elsewhere]
    · cases other : found first with
      | none => simp only [List.filterMap_cons, if_neg here, other, ih distinctRest]
      | some one =>
        have different : one.id ≠ id := fun same => here (same.symm.trans (keyed first one other))
        simp only [List.filterMap_cons, if_neg here, other, ih distinctRest, Memory.changeFirst,
          if_neg different]

/-- An unfinished operation is changed, and stays unfinished. -/
theorem Mirrored.edited (mirrored : c.Mirrored start m) (filed : c.Filed)
    (held : c.table[id]? = some op) (unfinished : op.status.isFinal = false)
    (kept : ∀ op, (edit op).id = op.id) (still : (edit op).status.isFinal = false)
    (graphs : after.queue.graphs = c.queue.graphs)
    (table : ∀ other : OperationId,
      after.table[other]? = if id = other then some (edit op) else c.table[other]?) :
    after.Mirrored start (m.update id edit).2 := by
  have found : c.unfinished? id = some op := unfinished?_eq_some.mpr ⟨held, unfinished⟩
  have lookup (other : OperationId) : after.unfinished? other =
      if id = other then some (edit op) else c.unfinished? other := by
    rw [unfinished?, table]
    split
    · simp [still]
    · rfl
  have sameNames (other : OperationId) :
      (after.unfinished? other).isSome = (c.unfinished? other).isSome := by
    rw [lookup]
    split
    · rename_i same
      rw [← same, found]
      rfl
    · rfl
  refine ⟨mirrored.indexed.update kept, fun snapshot => ?_,
    fun snapshot record member through => ?_⟩
  · have chosen : (c.unfinished? id).isSome = true := by rw [found]; rfl
    rw [Memory.recordsAt_update mirrored.indexed]
    simp only [sameNames]
    rw [Memory.filter_changeFirst kept (fun id => (c.unfinished? id).isSome) chosen,
      mirrored.records, outstandingAt, outstandingAt, membersAt_of_graphs graphs, funext lookup]
    exact (filterMap_changeFirst
      (fun other op found => filed.keyed other op (unfinished?_eq_some.mp found).1)
      found (filed.membersAt_nodup snapshot)).symm
  · have before : c.unfinished? record.id = none := by
      have noneAfter := sameNames record.id
      rw [through, Option.isSome_none] at noneAfter
      exact Option.not_isSome_iff_eq_none.mp (by simp [← noneAfter])
    rw [Memory.recordsAt_update mirrored.indexed] at member
    have old : record ∈ m.recordsAt snapshot := by
      rcases Memory.mem_changeFirst member with old | ⟨earlier, -, named, rfl⟩
      · exact old
      · rw [kept, named, found] at before
        cases before
    obtain ⟨dead, initial⟩ := mirrored.others snapshot record old before
    refine ⟨fun live => dead ?_, initial⟩
    rw [mem_table] at live ⊢
    obtain ⟨one, live⟩ := live
    rw [table] at live
    split at live
    · rename_i same
      rw [← same, found] at before
      cases before
    · exact ⟨one, live⟩

/-- An operation becomes final, and its record is deleted. -/
theorem Mirrored.finalized {final : Operation} (mirrored : c.Mirrored start m) (filed : c.Filed)
    (isFinal : final.status.isFinal = true)
    (graphs : after.queue.graphs = c.queue.graphs)
    (table : ∀ other : OperationId,
      after.table[other]? = if id = other then some final else c.table[other]?) :
    after.Mirrored start (m.delete id).2 := by
  have lookup (other : OperationId) : after.unfinished? other =
      if id = other then none else c.unfinished? other := by
    rw [unfinished?, table]
    split
    · simp [isFinal]
    · rfl
  refine ⟨mirrored.indexed.delete, fun snapshot => ?_, fun snapshot record member through => ?_⟩
  · have chosen (record : Operation) :
        ((after.unfinished? record.id).isSome && decide (record.id ≠ id)) =
          (decide (record.id ≠ id) && (c.unfinished? record.id).isSome) := by
      rw [lookup]
      by_cases same : id = record.id
      · simp [same]
      · rw [if_neg same, Bool.and_comm]
    have dropped (other : OperationId) :
        (c.unfinished? other).filter (fun op => decide (op.id ≠ id)) =
          after.unfinished? other := by
      rw [lookup]
      cases found : c.unfinished? other with
      | none => simp
      | some op =>
        have named := filed.keyed other op (unfinished?_eq_some.mp found).1
        by_cases same : id = other
        · simp [same, named]
        · simp [same, named, Ne.symm same]
    rw [Memory.recordsAt_delete mirrored.indexed, List.filter_filter,
      List.filter_congr fun record _ => chosen record, ← List.filter_filter, mirrored.records,
      outstandingAt, outstandingAt, membersAt_of_graphs graphs, List.filter_filterMap]
    exact List.filterMap_congr fun other _ => dropped other
  · rw [Memory.recordsAt_delete mirrored.indexed] at member
    obtain ⟨old, different⟩ := List.mem_filter.mp member
    have elsewhere : id ≠ record.id := fun same => by simp [same] at different
    rw [lookup, if_neg elsewhere] at through
    obtain ⟨dead, initial⟩ := mirrored.others snapshot record old through
    refine ⟨fun live => dead ?_, initial⟩
    obtain ⟨one, live⟩ := mem_table.mp live
    rw [table, if_neg elsewhere] at live
    exact mem_table.mpr ⟨one, live⟩

/-- Removing drained graphs removes nothing that is left to do. -/
theorem unfinished?_pruned (filed : c.Filed) : c.prune.2.unfinished? = c.unfinished? :=
  funext fun id => by
    rw [unfinished?, unfinished?, lookup_pruned]
    split
    · rename_i drained
      obtain ⟨op, held, final⟩ := final_of_drained filed drained
      rw [held, Option.filter_some, if_neg (by simp [final]), Option.filter_none]
    · rfl

theorem Mirrored.prune (mirrored : c.Mirrored start m) (filed : c.Filed) :
    c.prune.2.Mirrored start m := by
  have lookup := unfinished?_pruned filed
  have through {graph : Graph} (drained : c.isDrained graph = true) :
      graph.members.filterMap c.unfinished? = [] :=
    List.filterMap_eq_nil_iff.mpr fun id member =>
      unfinished?_eq_none.mpr (isDrained_iff.mp drained id member)
  refine ⟨mirrored.indexed, fun snapshot => ?_, fun snapshot record member final => ?_⟩
  · rw [lookup, mirrored.records, outstandingAt, outstandingAt, lookup, membersAt, membersAt,
      pruned_graphs, List.filterMap_flatMap, List.filterMap_flatMap, List.filter_filter]
    induction c.queue.graphs with
    | nil => rfl
    | cons graph rest ih =>
      rw [List.filter_cons, List.filter_cons]
      by_cases here : graph.snapshot = snapshot
      · cases drained : c.isDrained graph with
        | true => simpa [here, drained, through drained] using ih
        | false => simpa [here, drained] using ih
      · simpa [here] using ih
  · rw [lookup] at final
    obtain ⟨dead, initial⟩ := mirrored.others snapshot record member final
    refine ⟨fun live => dead ?_, initial⟩
    obtain ⟨op, held⟩ := mem_table.mp live
    exact mem_table.mpr ⟨op, held_of_pruned held⟩

/-! ### A new batch -/

section Batch
variable {queue : Queue} {operations : List Operation} {edges : List Edge}

/-- A table with the dependencies of some edges. -/
def link (table : Table) (edges : List Edge) : Table :=
  edges.foldl (fun table e => table.modify e.operation (·.dependingOn e.dependsOn)) table

/-- It does not matter whether edges are added before a batch or after it, since they start
elsewhere. -/
theorem link_enlist {table : Table}
    (outside : ∀ edge ∈ edges, edge.operation ∉ operations.map (·.id)) :
    link (enlist table operations) edges = enlist (link table edges) operations := by
  have one {edge : Edge} (absent : edge.operation ∉ operations.map (·.id)) (table : Table) :
      (enlist table operations).modify edge.operation (·.dependingOn edge.dependsOn) =
        enlist (table.modify edge.operation (·.dependingOn edge.dependsOn)) operations := by
    clear outside
    induction operations generalizing table with
    | nil => rfl
    | cons first rest ih =>
      simp only [List.map_cons, List.mem_cons, not_or] at absent
      have swap : (table.insert first.id first).modify edge.operation
          (·.dependingOn edge.dependsOn) =
          (table.modify edge.operation (·.dependingOn edge.dependsOn)).insert first.id first := by
        refine Std.ExtTreeMap.ext_getElem? fun other => ?_
        simp only [lookup_modify, lookup_insert]
        by_cases new : first.id = other
        · rw [if_pos new, if_pos new, if_neg fun same => absent.1 (same.trans new.symm)]
        · rw [if_neg new, if_neg new]
      exact (ih absent.2 (table.insert first.id first)).trans (congrArg (enlist · rest) swap)
  induction edges generalizing table with
  | nil => rfl
  | cons edge rest ih =>
    rw [link, List.foldl_cons, one (outside edge List.mem_cons_self)]
    exact ih fun edge member => outside edge (List.mem_cons_of_mem _ member)

theorem membersAt_batch (fits : c.BatchFits queue snapshot operations edges) (place : Nat) :
    (c.queueBatch queue snapshot operations edges).core.membersAt place =
      c.membersAt place ++ if snapshot = place then operations.map (·.id) else [] := by
  change (queue.graphs.filter (·.snapshot = place)).flatMap (·.members) = _
  rw [batch_graphs fits, List.filter_append, List.flatMap_append, membersAt]
  by_cases here : snapshot = place
  · by_cases empty : operations.map (·.id) = []
    · simp [empty]
    · simp [empty, here]
  · by_cases empty : operations.map (·.id) = []
    · simp [empty]
    · simp [empty, here]

/-- A batch without edges onto earlier operations. -/
private theorem Mirrored.stored (mirrored : c.Mirrored start m) (filed : c.Filed)
    (fits : c.BatchFits queue snapshot operations []) :
    (c.queueBatch queue snapshot operations []).core.Mirrored start
      (m.store snapshot operations) := by
  have member {op : Operation} (listed : op ∈ operations) :
      (c.queueBatch queue snapshot operations []).core.unfinished? op.id = some op :=
    unfinished?_eq_some.mpr
      ⟨lookup_batch_member fits listed, by rw [(fits.stamped op listed).2.2]; rfl⟩
  have other {id : OperationId} (absent : id ∉ operations.map (·.id)) :
      (c.queueBatch queue snapshot operations []).core.unfinished? id = c.unfinished? id := by
    rw [unfinished?, unfinished?, lookup_batch_other filed absent]
    cases c.table[id]? <;> rfl
  have fresh {id : OperationId} (listed : id ∈ operations.map (·.id)) :
      c.unfinished? id = none := by
    refine unfinished?_eq_none.mpr fun op held => ?_
    exact absurd listed (fits.absent held)
  refine ⟨mirrored.indexed.store, fun place => ?records, fun place record listed through => ?others⟩
  case records =>
    rw [Memory.recordsAt_store mirrored.indexed.filed, List.filter_append, List.filter_filter,
      outstandingAt, membersAt_batch fits, List.filterMap_append]
    have earlier : ((m.recordsAt place).filter fun op =>
        ((c.queueBatch queue snapshot operations []).core.unfinished? op.id).isSome &&
          decide (op.id ∉ operations.map (·.id))) =
        (m.recordsAt place).filter fun op => (c.unfinished? op.id).isSome :=
      List.filter_congr fun op _ => by
        by_cases listed : op.id ∈ operations.map (·.id)
        · simp [listed, fresh listed]
        · simp [listed, other listed]
    have kept : (c.membersAt place).filterMap
        (c.queueBatch queue snapshot operations []).core.unfinished? = c.outstandingAt place :=
      List.filterMap_congr fun id old => by
        obtain ⟨graph, queued, -, listed⟩ := mem_membersAt.mp old
        obtain ⟨op, held⟩ := filed.live queued listed
        exact other (fits.absent held)
    rw [earlier, mirrored.records, kept]
    congr 1
    split
    · rw [List.filterMap_map, List.filter_eq_self.mpr fun op listed => by rw [member listed]; rfl]
      exact ((List.filterMap_congr fun op listed => member listed).trans List.filterMap_some).symm
    · rfl
  case others =>
    rw [Memory.recordsAt_store mirrored.indexed.filed] at listed
    rcases List.mem_append.mp listed with old | new
    · obtain ⟨old, absent⟩ := List.mem_filter.mp old
      have absent : record.id ∉ operations.map (·.id) := by simpa using absent
      rw [other absent] at through
      obtain ⟨dead, initial⟩ := mirrored.others place record old through
      refine ⟨fun live => dead ?_, initial⟩
      obtain ⟨op, held⟩ := mem_table.mp live
      rw [lookup_batch_other filed absent] at held
      obtain ⟨op, held, -⟩ := Option.map_eq_some_iff.mp held
      exact mem_table.mpr ⟨op, held⟩
    · split at new
      · rw [member new] at through
        cases through
      · cases new

private theorem lookup_held {f : Operation → Operation} (held : c.table[id]? = some op)
    (other : OperationId) : (c.table.modify id f)[other]? =
      if id = other then some (f op) else c.table[other]? := by
  rw [lookup_modify]
  split
  · rename_i same
    rw [← same, held, Option.map_some]
  · rfl

/-- Edges between operations that are not final change the same dependencies in both places. -/
theorem Mirrored.linked (mirrored : c.Mirrored start m) (filed : c.Filed)
    (waiting : ∀ edge ∈ edges, ∃ op, c.table[edge.operation]? = some op ∧
      op.status.isFinal = false) :
    { c with table := link c.table edges }.Mirrored start (m.addEdges edges).2 := by
  induction edges generalizing c m with
  | nil => exact mirrored
  | cons edge rest ih =>
    obtain ⟨op, held, unfinished⟩ := waiting edge List.mem_cons_self
    have edited : { c with
        table := c.table.modify edge.operation (·.dependingOn edge.dependsOn) }.Mirrored start
        (m.update edge.operation (·.dependingOn edge.dependsOn)).2 :=
      mirrored.edited filed held unfinished (fun _ => rfl) unfinished rfl (lookup_held held)
    have continues : c.table.Continues
        (c.table.modify edge.operation (·.dependingOn edge.dependsOn)) :=
      modify_continues fun op => ⟨rfl, rfl, rfl, rfl, rfl, fun id member =>
        Std.ExtTreeSet.mem_insert.mpr (.inr member)⟩
    rw [Memory.addEdges_cons mirrored.indexed (mirrored.known filed held unfinished)]
    refine ih edited (filed.of_continues rfl rfl rfl continues) fun other later => ?_
    obtain ⟨op, held, unfinished⟩ := waiting other (List.mem_cons_of_mem _ later)
    rw [lookup_modify]
    split
    · exact ⟨op.dependingOn edge.dependsOn, by rw [held, Option.map_some], unfinished⟩
    · exact ⟨op, held, unfinished⟩

/-- A batch is queued and saved. -/
theorem Mirrored.batch (mirrored : c.Mirrored start m) (filed : c.Filed)
    (fits : c.BatchFits queue snapshot operations edges)
    (saved : (m.save snapshot operations edges).1 = .ok ()) :
    (c.queueBatch queue snapshot operations edges).core.Mirrored start
      (m.save snapshot operations edges).2 := by
  have bare : c.BatchFits queue snapshot operations [] :=
    ⟨fits.pushed, fits.distinct, fits.fresh, fits.stamped, nofun⟩
  cases stray : m.strayEdge? (operations.map (·.id)) edges with
  | some edge =>
    rw [Memory.save_stray stray] at saved
    cases saved
  | none =>
    rw [Memory.save_fitting stray]
    have waiting : ∀ edge ∈ edges, ∃ op,
        (c.queueBatch queue snapshot operations []).core.table[edge.operation]? = some op ∧
          op.status.isFinal = false := by
      intro edge member
      obtain ⟨outside, op, held, unfinished⟩ := fits.outer edge member
      refine ⟨op, ?_, unfinished⟩
      rw [lookup_batch_other filed outside, held]
      rfl
    refine ((mirrored.stored filed bare).linked (filed.batch bare) waiting).of_same rfl ?_
    exact (link_enlist fun edge member => (fits.outer edge member).1).symm

end Batch

/-! ### A whole request -/

/-- Whatever has a record is not final. -/
theorem Mirrored.unfinished_of_known (mirrored : c.Mirrored start m) (filed : c.Filed)
    (held : c.table[id]? = some op) (known : id ∈ m.snapshotOf) : op.status.isFinal = false := by
  cases final : op.status.isFinal with
  | false => rfl
  | true =>
    obtain ⟨snapshot, known⟩ := Option.isSome_iff_exists.mp
      (Std.ExtTreeMap.mem_iff_isSome_getElem?.mp known)
    have recorded := mirrored.indexed.isSome_get? known
    rw [mirrored.get?_live filed held, final] at recorded
    cases recorded

/-- A batch is queued and saved, unless it is empty. -/
theorem Mirrored.queued {queue : Queue} {snapshot : Nat} {operations : List Operation}
    {edges : List Edge} {next : Memory} (mirrored : c.Mirrored start m) (filed : c.Filed)
    (fits : c.BatchFits queue snapshot operations edges)
    (edgeless : operations = [] → edges = [])
    (wrote : ∀ write, (c.queueBatch queue snapshot operations edges).write = some write →
      m.perform write = (.ok (), next))
    (silent : (c.queueBatch queue snapshot operations edges).write = none → next = m) :
    (c.queueBatch queue snapshot operations edges).core.Mirrored start next := by
  cases empty : operations.isEmpty with
  | true =>
    have empty := List.isEmpty_iff.mp empty
    subst empty
    have graphs : queue.graphs = c.queue.graphs := by
      rw [batch_graphs fits, List.map_nil, if_pos rfl, List.append_nil]
    rw [silent rfl]
    exact mirrored.of_same graphs (congrArg (link c.table) (edgeless rfl))
  | false =>
    have saved : m.save snapshot operations edges = (.ok (), next) :=
      Memory.perform_accepted (wrote _ (if_neg (by simp [empty])))
    have stored := mirrored.batch filed fits (congrArg Prod.fst saved)
    rwa [saved] at stored

theorem Mirrored.deleted {status : Status} {next : Memory} (mirrored : c.Mirrored start m)
    (filed : c.Filed) (held : c.table[id]? = some op) (final : status.isFinal = true)
    (deleted : m.delete id = (.ok (), next)) :
    (c.finalize id status).core.Mirrored start next := by
  have mirrored : (c.finalize id status).core.Mirrored start (m.delete id).2 :=
    mirrored.finalized filed final rfl (lookup_held held)
  rwa [deleted] at mirrored

/-- One record is changed as the table changes. -/
theorem Mirrored.updated {next : Memory} (mirrored : c.Mirrored start m) (filed : c.Filed)
    (held : c.table[id]? = some op) (unfinished : op.status.isFinal = false)
    (updated : m.update id edit = (.ok (), next)) (kept : ∀ op, (edit op).id = op.id)
    (still : (edit op).status.isFinal = false) (graphs : after.queue.graphs = c.queue.graphs)
    (table : ∀ other : OperationId,
      after.table[other]? = if id = other then some (edit op) else c.table[other]?) :
    after.Mirrored start next := by
  have mirrored := mirrored.edited filed held unfinished kept still graphs table
  rwa [updated] at mirrored

/-- An admitted request leads to a mirrored state if its write succeeds, or it has none. -/
theorem Mirrored.admitted {now : Instant} {request : Request} {change : Change} {next : Memory}
    (mirrored : c.Mirrored start m) (filed : c.Filed) (admitted : c.Admits now request change)
    (wrote : ∀ write, change.write = some write → m.perform write = (.ok (), next))
    (silent : change.write = none → next = m) : change.core.Mirrored start next := by
  cases admitted with
  | append pushed distinct fresh fit =>
    refine mirrored.queued filed (append_fits pushed distinct fresh fit) (fun empty => ?_) wrote
      silent
    rw [List.map_eq_nil_iff] at empty
    exact List.filter_eq_nil_iff.mpr fun edge given =>
      absurd (fit edge given).1 (by simp [empty])
  | restore pushed distinct fresh =>
    exact mirrored.queued filed (restore_fits pushed distinct fresh) (fun _ => rfl) wrote silent
  | complete held running =>
    exact mirrored.deleted filed held rfl (Memory.perform_accepted (wrote _ rfl))
  | skip held unfinished =>
    exact mirrored.deleted filed held rfl (Memory.perform_accepted (wrote _ rfl))
  | @reset id op delay held running =>
    have unfinished : op.status.isFinal = false := by rw [running]; rfl
    cases delay with
    | none =>
      have updated : m.update id ({ · with status := .pending }) = (.ok (), next) :=
        Memory.perform_accepted (wrote _ rfl)
      exact mirrored.updated filed held unfinished updated (fun _ => rfl) rfl rfl (lookup_held held)
    | some delay =>
      have updated : m.update id ({ · with status := .pending, hold := some (now.after delay) }) =
          (.ok (), next) := Memory.perform_accepted (wrote _ rfl)
      exact mirrored.updated filed held unfinished updated (fun _ => rfl) rfl rfl (lookup_held held)
  | @forceActive id op held waiting =>
    have unfinished : op.status.isFinal = false := by rw [waiting]; rfl
    have updated : m.update id ({ · with status := .active }) = (.ok (), next) :=
      Memory.perform_accepted (wrote _ rfl)
    exact mirrored.updated filed held unfinished updated (fun _ => rfl) rfl rfl (lookup_held held)
  | @setHold id op hold held =>
    have updated : m.update id ({ · with hold }) = (.ok (), next) :=
      Memory.perform_accepted (wrote _ rfl)
    -- The hold of a final operation cannot be written, since its record is gone.
    have known : id ∈ m.snapshotOf := by
      have answer := Memory.update_answer mirrored.indexed id ({ · with hold })
      rw [updated] at answer
      split at answer
      · rename_i known
        exact Std.ExtTreeMap.contains_iff_mem.mp known
      · cases answer
    have unfinished := mirrored.unfinished_of_known filed held known
    exact mirrored.updated filed held unfinished updated (fun _ => rfl) unfinished rfl
      (lookup_held held)
  | setLimit | suspend | resume | dispatch =>
    rw [silent rfl]
    exact mirrored.of_same rfl rfl

end Core
end CommitPipeline
