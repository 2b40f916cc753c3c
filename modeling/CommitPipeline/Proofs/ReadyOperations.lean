import CommitPipeline.Proofs.Filing

/-! Which operations are offered to the dispatcher: the members of the candidate graphs that may
start, each once. -/
namespace CommitPipeline

namespace Listed
variable {table : Table} {graphs : List Graph} {entry : Listed}

theorem insertByPriority_perm (entry : Listed) (entries : List Listed) :
    (insertByPriority entry entries).Perm (entry :: entries) := by
  induction entries with
  | nil => exact .refl _
  | cons other rest ih =>
    rw [insertByPriority]
    split
    · exact .refl _
    · exact (ih.cons other).trans (.swap ..)

theorem byPriority_perm (entries : List Listed) : (byPriority entries).Perm entries := by
  induction entries with
  | nil => exact .refl _
  | cons entry rest ih => exact (insertByPriority_perm entry _).trans (ih.cons entry)

theorem mem_ofGraphs {index : Nat} : entry ∈ ofGraphs table index graphs ↔
    ∃ place graph, graphs[place]? = some graph ∧ entry.graphIndex = index + place ∧
      entry.id ∈ graph.members ∧ table[entry.id]? = some entry.operation := by
  induction graphs generalizing index with
  | nil => simp [ofGraphs]
  | cons graph rest ih =>
    rw [ofGraphs, List.mem_append, ih]
    constructor
    · rintro (here | ⟨place, other, found, index, member, held⟩)
      · obtain ⟨id, member, made⟩ := List.mem_filterMap.mp here
        obtain ⟨op, held, rfl⟩ := Option.map_eq_some_iff.mp made
        exact ⟨0, graph, rfl, rfl, member, held⟩
      · exact ⟨place + 1, other, found, by omega, member, held⟩
    · rintro ⟨place, other, found, index, member, held⟩
      cases place with
      | zero =>
        cases found
        refine .inl (List.mem_filterMap.mpr ⟨entry.id, member, ?_⟩)
        rw [held, Option.map_some]
        obtain ⟨_, _, _⟩ := entry
        cases index
        rfl
      | succ place => exact .inr ⟨place, other, found, by omega, member, held⟩

/-- The entries keep the order of the graphs and of their members, and leave out at most those
that are not live. -/
theorem ofGraphs_ids_sublist (table : Table) (index : Nat) (graphs : List Graph) :
    ((ofGraphs table index graphs).map (·.id)).Sublist (graphs.flatMap (·.members)) := by
  induction graphs generalizing index with
  | nil => exact .slnil
  | cons graph rest ih =>
    rw [ofGraphs, List.map_append, List.flatMap_cons]
    refine List.Sublist.append ?_ (ih (index + 1))
    induction graph.members with
    | nil => exact .slnil
    | cons id others inner =>
      cases held : table[id]? with
      | none => simpa [held] using inner.cons id
      | some op => simpa [held] using inner

end Listed

namespace Readiness
variable {r : Readiness} {now : Instant} {id : OperationId} {op : Operation}

theorem mem_considered {entry : Listed} (member : entry ∈ r.considered) :
    (∃ graph ∈ r.candidates, entry.id ∈ graph.members) ∧
      r.table[entry.id]? = some entry.operation := by
  obtain ⟨place, graph, found, -, listed, held⟩ := Listed.mem_ofGraphs.mp member
  exact ⟨⟨graph, List.mem_of_getElem? found, listed⟩, held⟩

theorem considered_of_mem {graph : Graph} (candidate : graph ∈ r.candidates)
    (member : id ∈ graph.members) (held : r.table[id]? = some op) :
    ∃ entry ∈ r.considered, entry.id = id ∧ entry.operation = op := by
  obtain ⟨place, found⟩ := List.mem_iff_getElem?.mp candidate
  exact ⟨⟨place, id, op⟩, Listed.mem_ofGraphs.mpr
    ⟨place, graph, found, (Nat.zero_add place).symm, member, held⟩, rfl, rfl⟩

theorem mem_ready : id ∈ r.ready now ↔ ∃ graph ∈ r.candidates, id ∈ graph.members ∧
    ∃ op, r.table[id]? = some op ∧ r.isReady op now = true := by
  rw [ready, List.mem_map]
  constructor
  · rintro ⟨entry, member, rfl⟩
    obtain ⟨considered, isReady⟩ :=
      List.mem_filter.mp ((Listed.byPriority_perm _).mem_iff.mp member)
    obtain ⟨⟨graph, candidate, listed⟩, held⟩ := mem_considered considered
    exact ⟨graph, candidate, listed, entry.operation, held, isReady⟩
  · rintro ⟨graph, candidate, listed, op, held, isReady⟩
    obtain ⟨entry, considered, rfl, rfl⟩ := considered_of_mem candidate listed held
    refine ⟨entry, (Listed.byPriority_perm _).mem_iff.mpr ?_, rfl⟩
    exact List.mem_filter.mpr ⟨considered, isReady⟩

theorem isReady_iff : r.isReady op now = true ↔
    op.status = .pending ∧ r.inCandidateGraph op = true ∧ op.isHeld now = false ∧
      ∀ id ∈ op.dependencies, r.isUnmet op id = false := by
  simp only [isReady, unmet, Bool.and_eq_true, decide_eq_true_eq, Bool.not_eq_true',
    List.isEmpty_iff, List.filter_eq_nil_iff, Std.ExtTreeSet.mem_toList, and_assoc,
    Bool.not_eq_true]

/-- Only pending operations are ready. -/
theorem pending_of_ready (member : id ∈ r.ready now) :
    ∃ op, r.table[id]? = some op ∧ op.status = .pending := by
  obtain ⟨-, -, -, op, held, isReady⟩ := mem_ready.mp member
  exact ⟨op, held, (isReady_iff.mp isReady).1⟩

/-- When graphs run one at a time, dependencies in other graphs hold nobody up. -/
theorem isUnmet_commitGraph (inOrder : r.algorithm = .commitGraph) : r.isUnmet op id = false ↔
    ∀ other, r.table[id]? = some other → other.snapshot = op.snapshot →
      other.status.isFinal = true := by
  rw [isUnmet, inOrder]
  cases r.table[id]? <;> simp

/-- When all graphs are considered, a dependency must be final, or known to have been. -/
theorem isUnmet_flatGraph (atOnce : r.algorithm = .flatGraph) : r.isUnmet op id = false ↔
    (∃ other, r.table[id]? = some other ∧ other.status.isFinal = true) ∨
      (id ∉ r.table ∧ id ∈ r.retired) := by
  rw [isUnmet, atOnce, mem_table]
  cases r.table[id]? <;> simp

theorem candidates_sublist (r : Readiness) : r.candidates.Sublist r.queue.graphs := by
  unfold candidates
  split
  · exact List.take_sublist 1 _
  · exact .refl _

end Readiness

namespace Core
variable {c : Core} {now : Instant}

theorem Filed.considered_nodup (filed : c.Filed) :
    (c.readiness.considered.map (·.id)).Nodup :=
  ((Listed.ofGraphs_ids_sublist ..).trans
    (c.readiness.candidates_sublist.flatMap _)).nodup filed.distinct

theorem Filed.ready_nodup (filed : c.Filed) : (c.ready now).Nodup := by
  refine ((Listed.byPriority_perm _).map _).nodup_iff.mpr ?_
  exact (List.filter_sublist.map _).nodup filed.considered_nodup

end Core
end CommitPipeline
