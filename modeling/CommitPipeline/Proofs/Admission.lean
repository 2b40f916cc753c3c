import CommitPipeline.Proofs.Lookup

/-! Which requests are admitted, and the change each of them stands for. `Admits` lists the
admitted requests with all that was checked of them; what a request can do to a pipeline is read
off this list, and no later proof opens the checks themselves. -/
namespace CommitPipeline

theorem except_bind_ok {α β : Type} {first : Except Error α} {next : α → Except Error β} {b : β} :
    (first >>= next) = .ok b ↔ ∃ a, first = .ok a ∧ next a = .ok b := by
  cases first with
  | error error => exact ⟨nofun, nofun⟩
  | ok a => exact ⟨fun ran => ⟨a, rfl, ran⟩, fun ⟨_, same, ran⟩ => Except.ok.inj same ▸ ran⟩

theorem except_bind_error {α β : Type} {first : Except Error α} {next : α → Except Error β}
    {error : Error} : (first >>= next) = .error error ↔
      first = .error error ∨ ∃ a, first = .ok a ∧ next a = .error error := by
  cases first with
  | error found =>
    refine ⟨fun failed => .inl (congrArg _ (Except.error.inj failed)), fun failed => ?_⟩
    exact congrArg _ (Except.error.inj (failed.resolve_right nofun))
  | ok a => exact ⟨fun ran => .inr ⟨a, rfl, ran⟩, fun failed =>
      let ⟨_, same, ran⟩ := failed.resolve_left nofun
      Except.ok.inj same ▸ ran⟩

theorem except_isOk {α : Type} {answer : Except Error α} :
    answer.isOk = true ↔ ∃ a, answer = .ok a := by
  cases answer with
  | error error => exact ⟨nofun, nofun⟩
  | ok a => exact ⟨fun _ => ⟨a, rfl⟩, fun _ => rfl⟩

/-- A queue takes a snapshot that is above all before it, and its graph unless it is empty. -/
theorem push_ok {q queue : Queue} {graph : Graph} (pushed : q.push graph = .ok queue) :
    (∀ latest, q.latest = some latest → latest < graph.snapshot) ∧
      queue.latest = some graph.snapshot ∧
      queue.graphs = q.graphs ++ if graph.members = [] then [] else [graph] := by
  obtain ⟨⟨⟩, checked, pushed⟩ := except_bind_ok.mp pushed
  refine ⟨Queue.check_eq_ok_iff.mp checked, ?_⟩
  by_cases empty : graph.members = []
  · simp only [empty, List.isEmpty_nil, ↓reduceIte, pure, Except.pure, Except.ok.injEq] at pushed
    subst pushed
    simp [empty]
  · simp only [List.isEmpty_iff, empty, ↓reduceIte, pure, Except.pure, Except.ok.injEq] at pushed
    subst pushed
    simp [empty]

/-! ### What a request is about -/

namespace Request

/-- The graph that a request wants to queue. -/
def graph? (names : Names) : Request → Option Graph
  | .append snapshot operations _ => some ⟨snapshot, operations.map (·.id)⟩
  | .restore batch => some ⟨batch.snapshot,
      (batch.operations.filter fun op => names.owns op.pipeline).map (·.id)⟩
  | _ => none

/-- The operation that a request reports as through. -/
def finalized? : Request → Option OperationId
  | .complete id | .skip id => some id
  | _ => none

/-- Whether a request asks that an operation wait for another. -/
def Declares (names : Names) (id dependency : OperationId) : Request → Prop
  | .append _ operations edges =>
    (∃ op ∈ operations, op.id = id ∧ dependency ∈ op.dependencies) ∨ ⟨id, dependency⟩ ∈ edges
  | .restore batch => ∃ op ∈ batch.operations,
      names.owns op.pipeline = true ∧ op.id = id ∧ dependency ∈ op.dependencies
  | _ => False

end Request

namespace Core
variable {c : Core} {id : OperationId} {now : Instant}

theorem statusOf_ok {status : Status} :
    c.statusOf id = .ok status ↔ ∃ op, c.table[id]? = some op ∧ op.status = status := by
  unfold statusOf find
  cases c.table[id]? <;> simp [Except.map]

theorem holdOf_ok {hold : Option Instant} :
    c.holdOf id = .ok hold ↔ ∃ op, c.table[id]? = some op ∧ op.hold = hold := by
  unfold holdOf find
  cases c.table[id]? <;> simp [Except.map]

theorem checkFresh_ok {seen : IdSet} {ids : List OperationId} :
    c.checkFresh seen ids = .ok () ↔ ids.Nodup ∧ ∀ id ∈ ids, id ∉ c.table ∧ id ∉ seen := by
  induction ids generalizing seen with
  | nil => simp [checkFresh]
  | cons id rest ih =>
    rw [checkFresh]
    by_cases known : id ∈ c.table ∨ id ∈ seen
    · rw [if_pos (by simpa using known)]
      refine ⟨nofun, fun ⟨_, unknown⟩ => ?_⟩
      obtain ⟨notLive, notSeen⟩ := unknown id List.mem_cons_self
      exact (known.elim notLive notSeen).elim
    · rw [if_neg (by simpa using known), ih, List.nodup_cons]
      rw [not_or] at known
      constructor
      · rintro ⟨distinct, unknown⟩
        have absent : id ∉ rest := fun member => (unknown id member).2 (by simp)
        refine ⟨⟨absent, distinct⟩, fun other member => ?_⟩
        rcases List.mem_cons.mp member with rfl | later
        · exact known
        · exact ⟨(unknown other later).1, fun held => (unknown other later).2 (by simp [held])⟩
      · rintro ⟨⟨absent, distinct⟩, unknown⟩
        refine ⟨distinct, fun other member => ?_⟩
        obtain ⟨notLive, notSeen⟩ := unknown other (List.mem_cons_of_mem _ member)
        have different : id ≠ other := fun same => absent (same ▸ member)
        exact ⟨notLive, by simp [different, notSeen]⟩

/-- What is checked of the edges of a batch: they end in the batch, and those that start outside
start at live operations that are not final. -/
def EdgesFit (c : Core) (batch : List OperationId) (edges : List Edge) : Prop :=
  ∀ edge ∈ edges, edge.dependsOn ∈ batch ∧
    (edge.operation ∉ batch →
      ∃ op, c.table[edge.operation]? = some op ∧ op.status.isFinal = false)

/-- The edges that start outside the batch. -/
def outerEdges (batch : List OperationId) (edges : List Edge) : List Edge :=
  edges.filter fun edge => !batch.contains edge.operation

theorem edgesFromQueued_ok {batch : List OperationId} {edges outer : List Edge} :
    c.edgesFromQueued batch edges = .ok outer ↔
      c.EdgesFit batch edges ∧ outer = outerEdges batch edges := by
  induction edges generalizing outer with
  | nil =>
    refine ⟨fun ran => ⟨nofun, (Except.ok.inj ran).symm⟩, fun ⟨_, same⟩ => ?_⟩
    rw [edgesFromQueued, same, outerEdges, List.filter_nil]
  | cons edge rest ih =>
    rw [edgesFromQueued]
    by_cases ends : edge.dependsOn ∈ batch
    · rw [if_neg (by simpa using ends)]
      by_cases starts : edge.operation ∈ batch
      · rw [if_pos (by simpa using starts), ih]
        simp [EdgesFit, outerEdges, starts, ends]
      · rw [if_neg (by simpa using starts), except_bind_ok]
        constructor
        · rintro ⟨status, read, ran⟩
          obtain ⟨op, held, rfl⟩ := statusOf_ok.mp read
          split at ran
          · cases ran
          · rename_i running
            obtain ⟨others, ran, packed⟩ := except_bind_ok.mp ran
            obtain ⟨fit, rfl⟩ := ih.mp ran
            cases packed
            refine ⟨?_, by simp [outerEdges, starts]⟩
            rintro one (_ | ⟨_, later⟩)
            · exact ⟨ends, fun _ => ⟨op, held, by simpa using running⟩⟩
            · exact fit one later
        · rintro ⟨fit, rfl⟩
          obtain ⟨op, held, running⟩ := (fit edge List.mem_cons_self).2 starts
          refine ⟨op.status, statusOf_ok.mpr ⟨op, held, rfl⟩, ?_⟩
          rw [if_neg (by simp [running]), except_bind_ok]
          refine ⟨_, ih.mpr ⟨fun one later => fit one (List.mem_cons_of_mem _ later), rfl⟩, ?_⟩
          simp [outerEdges, starts, pure, Except.pure]
    · rw [if_pos (by simpa using ends)]
      refine ⟨nofun, fun ⟨fit, _⟩ => ?_⟩
      exact (ends (fit edge List.mem_cons_self).1).elim

/-- The operation as a batch of a snapshot brings it in. -/
def stamp (c : Core) (snapshot : Nat) (op : Operation) : Operation :=
  { op with pipeline := c.names.current, snapshot, status := .pending }

/-- The operations of a batch that belong to the pipeline. -/
def ownOperations (c : Core) (batch : Batch) : List Operation :=
  batch.operations.filter fun op => c.names.owns op.pipeline

/-- The requests that lead to a change, each with what was found when it was checked. -/
inductive Admits (c : Core) (now : Instant) : Request → Change → Prop where
  | append {snapshot : Nat} {operations : List Operation} {edges : List Edge} {queue : Queue}
      (pushed : c.queue.push ⟨snapshot, operations.map (·.id)⟩ = .ok queue)
      (distinct : (operations.map (·.id)).Nodup)
      (fresh : ∀ id ∈ operations.map (·.id), id ∉ c.table)
      (fit : c.EdgesFit (operations.map (·.id)) edges) :
      Admits c now (.append snapshot operations edges)
        (c.queueBatch queue snapshot
          (operations.map fun op => withEdges edges (c.stamp snapshot op))
          (outerEdges (operations.map (·.id)) edges))
  | restore {batch : Batch} {queue : Queue}
      (pushed : c.queue.push ⟨batch.snapshot, (c.ownOperations batch).map (·.id)⟩ = .ok queue)
      (distinct : ((c.ownOperations batch).map (·.id)).Nodup)
      (fresh : ∀ id ∈ (c.ownOperations batch).map (·.id), id ∉ c.table) :
      Admits c now (.restore batch)
        (c.queueBatch queue batch.snapshot
          ((c.ownOperations batch).map (c.stamp batch.snapshot)) [])
  | complete {id : OperationId} {op : Operation}
      (held : c.table[id]? = some op) (running : op.status = .active) :
      Admits c now (.complete id) (c.finalize id .completed)
  | skip {id : OperationId} {op : Operation}
      (held : c.table[id]? = some op) (unfinished : op.status.isFinal = false) :
      Admits c now (.skip id) (c.finalize id .skipped)
  | reset {id : OperationId} {op : Operation} {delay : Option Delay}
      (held : c.table[id]? = some op) (running : op.status = .active) :
      Admits c now (.reset id delay)
        { write := match delay.map now.after with
            | some hold => some (.statusAndHold id .pending (some hold))
            | none => some (.status id .pending)
          core := { c with
            table := c.table.modify id fun op =>
              { op with status := .pending, hold := (delay.map now.after).or op.hold }
            active := c.active.erase id }
          events := .queue }
  | forceActive {id : OperationId} {op : Operation}
      (held : c.table[id]? = some op) (waiting : op.status = .pending)
      (first : id ∉ c.recovered) :
      Admits c now (.forceActive id)
        { write := some (.status id .active)
          core := { c with
            table := c.table.modify id ({ · with status := .active })
            recovered := c.recovered.insert id }
          events := .queue }
  | setHold {id : OperationId} {op : Operation} {hold : Option Instant}
      (held : c.table[id]? = some op) (differs : op.hold ≠ hold) :
      Admits c now (.setHold id hold)
        { write := some (.hold id hold)
          core := { c with table := c.table.modify id ({ · with hold }) }
          events := .queue }
  | setLimit {limit : Nat} (differs : limit ≠ c.limit) :
      Admits c now (.setLimit limit) ⟨none, { c with limit }, .none⟩
  | suspend {count : Nat} (positive : count ≠ 0) :
      Admits c now (.suspend count)
        ⟨none, { c with suspendCount := min (c.suspendCount + count) maxCount }, .suspendCount⟩
  | resume (suspended : c.suspendCount ≠ 0) :
      Admits c now .resume ⟨none, { c with suspendCount := c.suspendCount - 1 }, .suspendCount⟩
  | dispatch : Admits c now .dispatch ⟨none, c, .none⟩

private theorem some_change_ok {checked : Except Error Change} {change : Change}
    (ran : (do return some (← checked)) = Except.ok (some change)) : checked = .ok change := by
  obtain ⟨found, checked, same⟩ := except_bind_ok.mp ran
  cases same
  exact checked

/-- Whatever leads to a change was admitted. -/
theorem admits_of_changeFor {request : Request} {change : Change}
    (ran : c.changeFor now request = .ok (some change)) : c.Admits now request change := by
  cases request with
  | append snapshot operations edges =>
    obtain ⟨queue, pushed, ran⟩ := except_bind_ok.mp (some_change_ok ran)
    obtain ⟨⟨⟩, checked, ran⟩ := except_bind_ok.mp ran
    obtain ⟨outer, joined, ran⟩ := except_bind_ok.mp ran
    obtain ⟨fit, rfl⟩ := edgesFromQueued_ok.mp joined
    obtain ⟨distinct, fresh⟩ := checkFresh_ok.mp checked
    cases ran
    exact .append pushed distinct (fun id member => (fresh id member).1) fit
  | restore batch =>
    obtain ⟨queue, pushed, ran⟩ := except_bind_ok.mp (some_change_ok ran)
    obtain ⟨⟨⟩, checked, ran⟩ := except_bind_ok.mp ran
    obtain ⟨distinct, fresh⟩ := checkFresh_ok.mp checked
    cases ran
    exact .restore pushed distinct (fun id member => (fresh id member).1)
  | complete id =>
    obtain ⟨status, read, ran⟩ := except_bind_ok.mp (some_change_ok ran)
    obtain ⟨op, held, rfl⟩ := statusOf_ok.mp read
    split at ran
    · rename_i running
      cases ran
      exact .complete held running
    · cases ran
  | skip id =>
    obtain ⟨status, read, ran⟩ := except_bind_ok.mp (some_change_ok ran)
    obtain ⟨op, held, rfl⟩ := statusOf_ok.mp read
    split at ran
    · cases ran
    · rename_i unfinished
      cases ran
      exact .skip held (by simpa using unfinished)
  | reset id delay =>
    obtain ⟨status, read, ran⟩ := except_bind_ok.mp (some_change_ok ran)
    obtain ⟨op, held, rfl⟩ := statusOf_ok.mp read
    split at ran
    · rename_i running
      cases ran
      cases delay <;> exact .reset held running
    · cases ran
  | forceActive id =>
    obtain ⟨status, read, ran⟩ := except_bind_ok.mp (some_change_ok ran)
    obtain ⟨op, held, rfl⟩ := statusOf_ok.mp read
    split at ran
    · rename_i free
      obtain ⟨waiting, first⟩ := Bool.and_eq_true_iff.mp free
      cases ran
      exact .forceActive held (by simpa using waiting)
        (by simpa [← Std.ExtTreeSet.contains_iff_mem] using first)
    · cases ran
  | setHold id hold =>
    obtain ⟨current, read, ran⟩ := except_bind_ok.mp ran
    obtain ⟨op, held, rfl⟩ := holdOf_ok.mp read
    split at ran
    · cases ran
    · rename_i differs
      cases ran
      exact .setHold held differs
  | setLimit limit =>
    simp only [changeFor] at ran
    split at ran
    · cases ran
    · rename_i differs
      cases ran
      exact .setLimit differs
  | suspend count =>
    simp only [changeFor] at ran
    split at ran
    · cases ran
    · rename_i positive
      cases ran
      exact .suspend positive
  | resume =>
    simp only [changeFor] at ran
    split at ran
    · cases ran
    · rename_i suspended
      cases ran
      exact .resume suspended
  | dispatch =>
    cases ran
    exact .dispatch

end Core
end CommitPipeline
