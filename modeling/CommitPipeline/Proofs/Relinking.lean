import CommitPipeline.Proofs.Admission

/-! A pipeline with other dependencies. `relink` gives the live operations new dependencies and has
all graphs considered at once. Dependencies matter to the choice of what may start and to nothing
else: whether a request is admitted, which graphs are through and whether the pipeline is active
does not depend on them, so each of these parts of a call commutes with `relink`. -/
namespace CommitPipeline

/-- New dependencies of the operations of a snapshot, out of those that they have. -/
abbrev Links := Nat → IdSet → IdSet

def Operation.relink (links : Links) (op : Operation) : Operation :=
  { op with dependencies := links op.snapshot op.dependencies }

/-! ### Tables -/

def Table.relink (links : Links) (table : Table) : Table :=
  table.map fun _ op => op.relink links

namespace Table
variable {links : Links} {table : Table} {id : OperationId} {op : Operation}

@[simp] theorem lookup_relink : (table.relink links)[id]? = table[id]?.map (·.relink links) := by
  rw [relink, Std.ExtTreeMap.getElem?_map]

@[simp] theorem contains_relink : (table.relink links).contains id = table.contains id :=
  Std.ExtTreeMap.contains_map

@[simp] theorem values_relink :
    (table.relink links).values = table.values.map (·.relink links) := by
  rw [relink, values_eq_map_toList, values_eq_map_toList, Std.ExtTreeMap.toList_map, List.map_map,
    List.map_map]
  rfl

theorem relink_insert :
    (table.relink links).insert id (op.relink links) = relink links (table.insert id op) := by
  ext1 other
  rw [lookup_insert, lookup_relink, lookup_relink, lookup_insert]
  split <;> rfl

theorem relink_erase : (table.relink links).erase id = relink links (table.erase id) := by
  ext1 other
  rw [lookup_erase, lookup_relink, lookup_relink, lookup_erase]
  split <;> rfl

theorem relink_modify {change : Operation → Operation}
    (apart : ∀ op : Operation, change (op.relink links) = (change op).relink links) :
    (table.relink links).modify id change = relink links (table.modify id change) := by
  ext1 other
  rw [lookup_modify, lookup_relink, lookup_relink, lookup_modify]
  split
  · simp [Option.map_map, Function.comp_def, apart]
  · rfl

end Table

/-! ### The parts of a call -/

namespace Core
variable {links : Links} {c : Core} {id : OperationId} {operations : List Operation}

def relink (links : Links) (c : Core) : Core :=
  { c with algorithm := .flatGraph, table := c.table.relink links }

theorem find_relink : (c.relink links).find id = (c.find id).map (·.relink links) := by
  simp only [find, relink, Table.lookup_relink]
  cases c.table[id]? <;> rfl

@[simp] theorem statusOf_relink : (c.relink links).statusOf id = c.statusOf id := by
  rw [statusOf, find_relink, statusOf]
  cases c.find id <;> rfl

@[simp] theorem holdOf_relink : (c.relink links).holdOf id = c.holdOf id := by
  rw [holdOf, find_relink, holdOf]
  cases c.find id <;> rfl

@[simp] theorem isDrained_relink (graph : Graph) :
    (c.relink links).isDrained graph = c.isDrained graph := by
  simp only [isDrained, relink, Table.lookup_relink]
  congr 1
  funext id
  cases c.table[id]? <;> rfl

theorem retire_relink : (c.relink links).retire id = (c.retire id).relink links := by
  simp only [retire, relink, Table.relink_erase]

theorem retireAll_relink (ids : List OperationId) :
    ids.foldl retire (c.relink links) = (ids.foldl retire c).relink links :=
  List.foldl_hom (relink links) fun _ _ => retire_relink

theorem prune_relink : (c.relink links).prune = (c.prune.1, c.prune.2.relink links) := by
  have drained : (c.relink links).isDrained = c.isDrained := funext isDrained_relink
  simp only [prune, drained]
  exact Prod.ext rfl (retireAll_relink (c := { c with queue := (c.queue.prune c.isDrained).2 }) _)

theorem start_relink (op : Operation) :
    (c.relink links).start (op.relink links) = (c.start op).relink links := by
  simp only [start, relink, ← Table.relink_insert]
  rfl

@[simp] theorem isActive_relink : (c.relink links).isActive = c.isActive := by
  simp only [isActive, hasActive, pendingCount, relink, Table.values_relink, List.any_map,
    List.countP_map, Function.comp_def]
  rfl

theorem noteActivity_relink :
    (c.relink links).noteActivity = (c.noteActivity.1, c.noteActivity.2.relink links) := by
  rw [noteActivity, isActive_relink]
  rfl

/-! ### Requests -/

end Core

/-- The calls that pass over stored batches and edges onto queued operations. -/
def Request.isPlain : Request → Bool
  | .append _ _ edges => edges.isEmpty
  | .restore _ => false
  | _ => true

def Request.relink (links : Links) : Request → Request
  | .append snapshot operations edges =>
    .append snapshot
      (operations.map fun op => { op with dependencies := links snapshot op.dependencies }) edges
  | request => request

def Write.relink (links : Links) : Write → Write
  | .save snapshot operations edges => .save snapshot (operations.map (·.relink links)) edges
  | write => write

def Change.relink (links : Links) (change : Change) : Change where
  write := change.write.map (·.relink links)
  core := change.core.relink links
  events := change.events

/-- What a computation goes on with may be mapped after each of its parts. -/
theorem except_bind_map {α β : Type} {first : Except Error α} {next mapped : α → Except Error β}
    {f : β → β} (each : ∀ a, mapped a = (next a).map f) :
    (first >>= mapped) = (first >>= next).map f := by
  cases first with
  | error error => rfl
  | ok a => exact each a

namespace Core
variable {links other : Links} {c : Core} {id : OperationId} {now : Instant} {request : Request}

theorem checkFresh_relink (seen : IdSet) (ids : List OperationId) :
    (c.relink links).checkFresh seen ids = c.checkFresh seen ids := by
  induction ids generalizing seen with
  | nil => rfl
  | cons id rest ih =>
    rw [checkFresh, checkFresh, ih, relink, Table.contains_relink]

theorem enlist_relink (table : Table) (operations : List Operation) :
    enlist (table.relink links) (operations.map (·.relink links)) =
      (enlist table operations).relink links := by
  rw [enlist, List.foldl_map]
  exact List.foldl_hom (Table.relink links) fun _ _ => Table.relink_insert

theorem queueBatch_relink (queue : Queue) (snapshot : Nat) (operations : List Operation) :
    (c.relink links).queueBatch queue snapshot (operations.map (·.relink links)) [] =
      (c.queueBatch queue snapshot operations []).relink links := by
  simp only [queueBatch, Change.relink, relink, List.foldl_nil, enlist_relink, List.isEmpty_map]
  congr 1
  split <;> rfl

/-- A batch without edges is queued as it is, once its snapshot and its identifiers are found to be
new. -/
theorem appendChange_nil (snapshot : Nat) (operations : List Operation) :
    c.appendChange snapshot operations [] = do
      let queue ← c.queue.push ⟨snapshot, operations.map (·.id)⟩
      c.checkFresh ∅ (operations.map (·.id))
      return c.queueBatch queue snapshot (operations.map (c.stamp snapshot)) [] := rfl

private theorem finalize_relink (status : Status) :
    (c.relink links).finalize id status = (c.finalize id status).relink links := by
  simp only [finalize, Change.relink, relink]
  congr 2
  exact Table.relink_modify fun _ => rfl

theorem appendChange_relink (snapshot : Nat) (operations : List Operation) :
    (c.relink links).appendChange snapshot
        (operations.map fun op => { op with dependencies := links snapshot op.dependencies }) [] =
      (c.appendChange snapshot operations []).map (·.relink links) := by
  rw [appendChange_nil, appendChange_nil, List.map_map, List.map_map]
  refine except_bind_map fun queue => ?_
  rw [Function.comp_def]
  dsimp only
  rw [checkFresh_relink]
  refine except_bind_map fun _ => congrArg Except.ok ?_
  change _ = (c.queueBatch queue snapshot (operations.map (c.stamp snapshot)) []).relink links
  rw [← queueBatch_relink, List.map_map]
  rfl

/-- A batch is rejected for its snapshot and its identifiers, whatever the dependencies are. -/
theorem appendChange_refused {snapshot : Nat} {operations : List Operation} {error : Error}
    (refused : c.appendChange snapshot operations [] = .error error) :
    (c.relink links).appendChange snapshot
        (operations.map fun op => { op with dependencies := other snapshot op.dependencies }) [] =
      .error error := by
  rw [appendChange_nil] at refused
  rw [appendChange_nil, List.map_map]
  change (c.queue.push ⟨snapshot, operations.map (·.id)⟩ >>= fun queue => _) = _
  cases pushed : c.queue.push ⟨snapshot, operations.map (·.id)⟩ with
  | error reason =>
    rw [pushed] at refused
    exact refused
  | ok queue =>
    rw [pushed] at refused
    change ((c.relink links).checkFresh ∅ (operations.map (·.id)) >>= fun _ => _) = _
    rw [checkFresh_relink]
    change (c.checkFresh ∅ (operations.map (·.id)) >>= fun _ => _) = _ at refused
    cases checked : c.checkFresh ∅ (operations.map (·.id)) with
    | error reason =>
      rw [checked] at refused
      exact refused
    | ok fresh =>
      rw [checked] at refused
      cases refused

theorem completeChange_relink : (c.relink links).completeChange id =
    (c.completeChange id).map (·.relink links) := by
  rw [completeChange, statusOf_relink]
  refine except_bind_map fun status => ?_
  split
  · exact congrArg Except.ok (finalize_relink .completed)
  · rfl

theorem skipChange_relink : (c.relink links).skipChange id =
    (c.skipChange id).map (·.relink links) := by
  rw [skipChange, statusOf_relink]
  refine except_bind_map fun status => ?_
  split
  · rfl
  · exact congrArg Except.ok (finalize_relink .skipped)

theorem resetChange_relink (delay : Option Delay) : (c.relink links).resetChange id delay now =
    (c.resetChange id delay now).map (·.relink links) := by
  rw [resetChange, statusOf_relink]
  refine except_bind_map fun status => ?_
  split
  · refine congrArg Except.ok ?_
    simp only [Change.relink, relink]
    congr 2
    · cases delay <;> rfl
    · exact Table.relink_modify fun _ => rfl
  · rfl

theorem forceActiveChange_relink : (c.relink links).forceActiveChange id =
    (c.forceActiveChange id).map (·.relink links) := by
  rw [forceActiveChange, statusOf_relink]
  refine except_bind_map fun status => ?_
  change (if status = .pending && !c.recovered.contains id then _ else _) = _
  split
  · refine congrArg Except.ok ?_
    simp only [Change.relink, relink]
    congr 2
    exact Table.relink_modify fun _ => rfl
  · rfl

theorem setHoldChange_relink (hold : Option Instant) : (c.relink links).setHoldChange id hold =
    (c.setHoldChange id hold).map (·.map (·.relink links)) := by
  rw [setHoldChange, holdOf_relink]
  refine except_bind_map fun current => ?_
  split
  · rfl
  · refine congrArg (Except.ok <| some ·) ?_
    simp only [Change.relink, relink]
    congr 2
    exact Table.relink_modify fun _ => rfl

/-- Requests that pass over edges are decided on alike, whatever the dependencies are. -/
theorem changeFor_relink (plain : request.isPlain = true) :
    (c.relink links).changeFor now (request.relink links) =
      (c.changeFor now request).map (·.map (·.relink links)) := by
  cases request with
  | append snapshot operations edges =>
    cases List.isEmpty_iff.mp plain
    simp only [Request.relink, changeFor, appendChange_relink]
    cases c.appendChange snapshot operations [] <;> rfl
  | restore batch => cases plain
  | complete id =>
    simp only [Request.relink, changeFor, completeChange_relink]
    cases c.completeChange id <;> rfl
  | skip id =>
    simp only [Request.relink, changeFor, skipChange_relink]
    cases c.skipChange id <;> rfl
  | reset id delay =>
    simp only [Request.relink, changeFor, resetChange_relink]
    cases c.resetChange id delay now <;> rfl
  | forceActive id =>
    simp only [Request.relink, changeFor, forceActiveChange_relink]
    cases c.forceActiveChange id <;> rfl
  | setHold id hold => exact setHoldChange_relink hold
  | setLimit limit =>
    change (if limit = c.limit then _ else _) = Except.map _ (if limit = c.limit then _ else _)
    split <;> rfl
  | suspend count =>
    change (if count = 0 then _ else _) = Except.map _ (if count = 0 then _ else _)
    split <;> rfl
  | resume =>
    change (if c.suspendCount = 0 then _ else _) =
      Except.map _ (if c.suspendCount = 0 then _ else _)
    split <;> rfl
  | dispatch => rfl

/-- Rejected is the same, too, whatever dependencies the operations of the request have. -/
theorem changeFor_refused {error : Error} (plain : request.isPlain = true)
    (refused : c.changeFor now request = .error error) :
    (c.relink links).changeFor now (request.relink other) = .error error := by
  cases request with
  | append snapshot operations edges =>
    cases List.isEmpty_iff.mp plain
    cases appended : c.appendChange snapshot operations [] with
    | error reason =>
      simp only [changeFor, appended] at refused
      simp only [Request.relink, changeFor, appendChange_refused appended]
      exact refused
    | ok change =>
      simp only [changeFor, appended] at refused
      cases refused
  | restore batch => cases plain
  | complete | skip | reset | forceActive | setHold | setLimit | suspend | resume | dispatch =>
    exact (changeFor_relink plain).trans (by rw [refused]; rfl)

end Core
end CommitPipeline
