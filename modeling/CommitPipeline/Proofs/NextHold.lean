import CommitPipeline.Proofs.History

/-! The earliest hold that is still ahead, and the calls that leave it alone: those that say they
changed nothing. -/
namespace CommitPipeline

namespace Instant

private theorem min_le (s t : Instant) : min s t ≤ s ∧ min s t ≤ t := by
  change (if s ≤ t then s else t) ≤ s ∧ (if s ≤ t then s else t) ≤ t
  split
  · rename_i below
    exact ⟨le_refl s, below⟩
  · rename_i above
    exact ⟨(le_total s t).resolve_left above, le_refl t⟩

private theorem min_eq (s t : Instant) : min s t = s ∨ min s t = t := by
  change (if s ≤ t then s else t) = s ∨ (if s ≤ t then s else t) = t
  split
  · exact .inl rfl
  · exact .inr rfl

private theorem foldl_min_spec (ts : List Instant) (t : Instant) :
    ts.foldl min t ∈ t :: ts ∧ ∀ s ∈ t :: ts, ts.foldl min t ≤ s := by
  induction ts generalizing t with
  | nil =>
    refine ⟨List.mem_singleton_self t, fun s member => ?_⟩
    exact List.mem_singleton.mp member ▸ le_refl t
  | cons next rest ih =>
    obtain ⟨found, least⟩ := ih (min t next)
    have below := least (min t next) List.mem_cons_self
    rw [List.foldl_cons]
    constructor
    · rcases List.mem_cons.mp found with same | later
      · rw [same]
        rcases min_eq t next with first | second
        · rw [first]
          exact List.mem_cons_self
        · rw [second]
          exact List.mem_cons_of_mem _ List.mem_cons_self
      · exact List.mem_cons_of_mem _ (List.mem_cons_of_mem _ later)
    · intro s member
      rcases List.mem_cons.mp member with rfl | member
      · exact le_trans below (min_le s next).1
      · rcases List.mem_cons.mp member with rfl | later
        · exact le_trans below (min_le t s).2
        · exact least s (List.mem_cons_of_mem _ later)

/-- The earliest of some instants is one of them and after none of them. -/
theorem earliest?_spec {ts : List Instant} {earliest : Instant}
    (found : earliest? ts = some earliest) : earliest ∈ ts ∧ ∀ t ∈ ts, earliest ≤ t := by
  cases ts with
  | nil => cases found
  | cons t rest =>
    cases found
    exact foldl_min_spec rest t

theorem earliest?_of_mem {ts : List Instant} {t : Instant} (member : t ∈ ts) :
    ∃ earliest, earliest? ts = some earliest ∧ earliest ≤ t := by
  cases found : earliest? ts with
  | none => cases ts with
    | nil => cases member
    | cons => cases found
  | some earliest => exact ⟨earliest, rfl, (earliest?_spec found).2 t member⟩

end Instant

/-- A pending operation that the algorithm considers, with its hold. -/
def Core.Holds (c : Core) (id : OperationId) (hold : Instant) : Prop :=
  ∃ entry ∈ c.readiness.considered, entry.id = id ∧ entry.operation.status = .pending ∧
    entry.operation.hold = some hold

instance {c : Core} {id : OperationId} {hold : Instant} : Decidable (c.Holds id hold) :=
  inferInstanceAs (Decidable (∃ entry ∈ c.readiness.considered, _))

namespace Core
variable {c after : Core} {id : OperationId} {now hold : Instant} {request : Request}
  {change : Change}

/-- A look for the next hold finds one no later than a hold exactly if that is still ahead. -/
theorem nextHold_covers (now : Instant) (holds : c.Holds id hold) :
    (∃ deadline, c.nextHold now = some deadline ∧ deadline ≤ hold) ↔ now < hold := by
  obtain ⟨entry, member, -, pending, held⟩ := holds
  constructor
  · rintro ⟨deadline, found, bound⟩
    obtain ⟨other, -, chosen⟩ := List.mem_filterMap.mp (Instant.earliest?_spec found).1
    refine Instant.lt_of_lt_of_le ?_ bound
    simp only [Bool.and_eq_true, decide_eq_true_eq] at chosen
    split at chosen
    · split at chosen
      · rename_i ahead
        cases chosen
        exact ahead.2
      · cases chosen
    · cases chosen
  · intro ahead
    refine Instant.earliest?_of_mem (List.mem_filterMap.mpr ⟨entry, member, ?_⟩)
    simp [held, pending, ahead]

/-- The next hold depends on the graphs and the operations alone. -/
theorem nextHold_congr (graphs : after.queue.graphs = c.queue.graphs)
    (table : after.table = c.table) (algorithm : after.algorithm = c.algorithm) :
    after.nextHold now = c.nextHold now := by
  simp only [nextHold, readiness, Readiness.nextHold, Readiness.considered, Readiness.candidates,
    graphs, table, algorithm]

private theorem queueBatch_silent {queue : Queue} {snapshot : Nat} {operations : List Operation}
    {edges : List Edge} (fits : c.BatchFits queue snapshot operations edges)
    (noEdges : operations = [] → edges = [])
    (silent : (c.queueBatch queue snapshot operations edges).events.queueChanged = false) :
    queue.graphs = c.queue.graphs ∧
      (c.queueBatch queue snapshot operations edges).core.table = c.table := by
  cases operations with
  | cons op rest => cases silent
  | nil =>
    cases noEdges rfl
    exact ⟨(batch_graphs fits).trans (List.append_nil _), rfl⟩

/-- A change without events leaves graphs and operations as they are. -/
theorem Admits.silent (admitted : c.Admits now request change)
    (silent : change.events.queueChanged = false) :
    change.core.queue.graphs = c.queue.graphs ∧ change.core.table = c.table := by
  cases admitted with
  | append pushed distinct fresh fit =>
    refine queueBatch_silent (append_fits pushed distinct fresh fit) (fun empty => ?_) silent
    refine List.filter_eq_nil_iff.mpr fun edge member => ?_
    have ends := (fit edge member).1
    rw [List.map_eq_nil_iff.mp empty] at ends
    cases ends
  | restore pushed distinct fresh =>
    exact queueBatch_silent (restore_fits pushed distinct fresh) (fun _ => rfl) silent
  | complete | skip | reset | forceActive | setHold => cases silent
  | setLimit | suspend | resume | dispatch => exact ⟨rfl, rfl⟩

/-- Where no graph is drained nothing leaves the queue. -/
theorem prune_idle (idle : c.prune.1 = false) :
    c.prune.2.queue.graphs = c.queue.graphs ∧ c.prune.2.table = c.table := by
  have noneGone : c.queue.graphs.filter c.isDrained = [] := by
    have gone : (!(c.queue.prune c.isDrained).1.isEmpty) = false := idle
    rw [Queue.prune_gone] at gone
    simpa using gone
  constructor
  · rw [pruned_graphs]
    refine List.filter_eq_self.mpr fun graph queued => ?_
    simpa using List.filter_eq_nil_iff.mp noneGone graph queued
  · refine Std.ExtTreeMap.ext_getElem? fun id => ?_
    rw [lookup_pruned, if_neg]
    simp [drainedMembers, noneGone]

/-- A call that does not tell of a change of the queue leaves graphs and operations as they are and
starts nothing. -/
theorem Answers.unchanged {step : Step} (answers : c.Answers now request (.ok step) after)
    (silent : step.events.queueChanged = false) :
    after.queue.graphs = c.queue.graphs ∧ after.table = c.table ∧ step.dispatched = [] := by
  cases answers with
  | idle => exact ⟨rfl, rfl, rfl⟩
  | @accepted change operations admitted dispatches =>
    have quiet : (change.events.queueChanged || change.core.prune.1 || !operations.isEmpty) =
        false := silent
    simp only [Bool.or_eq_false_iff, Bool.not_eq_false', List.isEmpty_iff] at quiet
    obtain ⟨⟨unchanged, idle⟩, rfl⟩ := quiet
    obtain ⟨graphs, table⟩ := admitted.silent unchanged
    obtain ⟨graphsLeft, tableLeft⟩ := prune_idle idle
    exact ⟨graphsLeft.trans graphs, tableLeft.trans table, rfl⟩

/-- A call that is rejected or has nothing to tell does not move the next hold. -/
theorem Answers.nextHold_eq {answer : Except Error Step}
    (answers : c.Answers now request answer after)
    (silent : ∀ step, answer = .ok step → step.events.isEmpty = true) (t : Instant) :
    after.nextHold t = c.nextHold t := by
  cases answer with
  | error error =>
    cases answers
    rfl
  | ok step =>
    have quiet : step.events = .none := EventSet.isEmpty_iff.mp (silent step rfl)
    obtain ⟨graphs, table, -⟩ := answers.unchanged (by rw [quiet]; rfl)
    exact nextHold_congr graphs table answers.algorithm

end Core
end CommitPipeline
