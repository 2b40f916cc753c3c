import CommitPipeline.Proofs.AcceptingStores
import CommitPipeline.Proofs.ChosenRecords

/-! Saving a batch with edges is all or nothing. A memory writes the batch first and adds the edges
one after the other; each of them looks a record up, and a lookup that failed would leave half of
the save behind. Whether every edge starts somewhere is asked before the first change. That the
answer still holds once the batch is written rests on the index, of which every entry has a
record. -/
namespace CommitPipeline

/-- The operation with a dependency more for each of the edges that start at it. -/
def Operation.linked (edges : List Edge) (op : Operation) : Operation :=
  let own := edges.filter (·.operation = op.id)
  { op with
    dependencies := own.foldl (fun known edge => known.insert edge.dependsOn) op.dependencies }

namespace Memory
variable {m : Memory} {id : OperationId} {snapshot : Nat} {operations : List Operation}
  {edges : List Edge} {write : Write}

/-- A memory accepts exactly the writes about what it has, unless writing is disabled. -/
theorem perform_ok_iff (indexed : m.Indexed) : (m.perform write).1 = .ok () ↔
    m.readOnly = false ∧ write.Fits {id | id ∈ m.snapshotOf} := by
  constructor
  · intro done
    have unlocked := unlocked_of_ok done
    refine ⟨unlocked, ?_⟩
    rw [perform_unlocked unlocked] at done
    have known {id : OperationId} (answered : (if m.snapshotOf.contains id then .ok ()
        else .error (.unknownOperation id) : Except Error Unit) = .ok ()) : id ∈ m.snapshotOf := by
      refine Std.ExtTreeMap.contains_iff_mem.mp ?_
      by_contra absent
      rw [if_neg absent] at answered
      cases answered
    cases write with
    | save snapshot operations edges =>
      rcases save_cases indexed snapshot operations edges with ⟨_, -, stray⟩ | ⟨fitting, -⟩
      · simp only [stray] at done
        cases done
      · intro edge member
        have fits := List.find?_eq_none.mp fitting edge member
        simp only [Bool.and_eq_true, Bool.not_eq_true', not_and_or, Bool.not_eq_false,
          Std.ExtTreeMap.contains_iff_mem, List.contains_iff_mem] at fits
        exact fits.symm
    | status | hold | statusAndHold => exact known ((update_answer indexed ..).symm.trans done)
    | delete => exact known ((delete_answer ..).symm.trans done)
  · rintro ⟨unlocked, fits⟩
    have serves : m.Serves {id | id ∈ m.snapshotOf} := ⟨indexed, unlocked, fun _ known => known⟩
    exact serves.takes write fits

/-! ### Records once a batch is written -/

theorem get?_store (indexed : m.Indexed) : (m.store snapshot operations).get? id =
    (operations.find? (·.id = id)).or (m.get? id) := by
  rw [get?_eq, get?_eq, lookup_store]
  by_cases listed : id ∈ operations.map (·.id)
  · -- The batch stands behind what is left under its snapshot, and nothing left has the identifier.
    rw [if_pos listed, Option.bind_some, recordsAt_store indexed.filed, if_pos rfl,
      List.find?_append]
    have replaced : ((m.recordsAt snapshot).filter (·.id ∉ operations.map (·.id))).find?
        (·.id = id) = none := by
      refine List.find?_eq_none.mpr fun op member => ?_
      have kept := (List.mem_filter.mp member).2
      simp only [decide_eq_true_eq] at kept ⊢
      exact fun named => kept (named ▸ listed)
    have found : (operations.find? (·.id = id)).isSome = true := by
      obtain ⟨op, member, named⟩ := List.mem_map.mp listed
      exact List.find?_isSome.mpr ⟨op, member, decide_eq_true named⟩
    rw [replaced, Option.none_or, Option.or_of_isSome found]
  · rw [if_neg listed]
    have absent : operations.find? (·.id = id) = none := by
      refine List.find?_eq_none.mpr fun op member => ?_
      simp only [decide_eq_true_eq]
      exact fun named => listed (named ▸ List.mem_map_of_mem member)
    rw [absent, Option.none_or]
    refine Option.bind_congr fun place known => ?_
    rw [recordsAt_store indexed.filed, List.find?_append, List.find?_filter]
    have elsewhere : (if snapshot = place then operations else []).find? (·.id = id) = none := by
      split
      · exact absent
      · rfl
    rw [elsewhere, Option.or_none]
    congr 1
    funext op
    by_cases named : op.id = id
    · simp [named, listed]
    · simp [named]

theorem get?_addEdges (indexed : m.Indexed)
    (known : ∀ edge ∈ edges, edge.operation ∈ m.snapshotOf) :
    (m.addEdges edges).2.get? id = (m.get? id).map (Operation.linked edges) := by
  induction edges generalizing m with
  | nil => exact (Option.map_id' ..).symm
  | cons edge rest ih =>
    rw [addEdges_cons indexed (known edge List.mem_cons_self),
      ih (indexed.dependingOn edge) (known_updated known),
      get?_update indexed fun op => (rfl : (op.dependingOn edge.dependsOn).id = op.id)]
    cases found : m.get? id with
    | none => simp
    | some op =>
      have named := (mem_of_get? found).1
      by_cases starts : edge.operation = id <;>
        simp [starts, Operation.linked, Operation.dependingOn, named]

theorem recordsAt_addEdges (indexed : m.Indexed)
    (known : ∀ edge ∈ edges, edge.operation ∈ m.snapshotOf) (place : Nat) :
    (m.addEdges edges).2.recordsAt place = joined edges (m.recordsAt place) := by
  have whole (m : Memory) : m.recordsOf (fun _ => true) place = m.recordsAt place :=
    List.filter_true _
  rw [← whole, ← whole, recordsOf_addEdges indexed known]

/-- What a memory has once it has taken a batch with its edges. -/
structure HasSaved (m : Memory) (snapshot : Nat) (operations : List Operation) (edges : List Edge)
    (after : Memory) : Prop where
  filed : ∀ id : OperationId, after.snapshotOf[id]? =
    if id ∈ operations.map (·.id) then some snapshot else m.snapshotOf[id]?
  /-- The batch stands behind what is left under its snapshot. -/
  records : ∀ place, after.recordsAt place =
    joined edges ((m.recordsAt place).filter (·.id ∉ operations.map (·.id)) ++
      if snapshot = place then operations else [])
  /-- The first record of the batch replaces the one there was, and every edge has been added to the
  record that it starts at. -/
  found : ∀ id, after.get? id =
    ((operations.find? (·.id = id)).or (m.get? id)).map (Operation.linked edges)
  readOnly : after.readOnly = m.readOnly

theorem hasSaved_addEdges (indexed : m.Indexed)
    (known : ∀ edge ∈ edges, edge.operation ∈ (m.store snapshot operations).snapshotOf) :
    m.HasSaved snapshot operations edges ((m.store snapshot operations).addEdges edges).2 := by
  have stored : (m.store snapshot operations).Indexed := indexed.store
  obtain ⟨-, -, index, flag⟩ := addEdges_known stored known
  refine ⟨fun id => ?_, fun place => ?_, fun id => ?_, flag.trans readOnly_refileAll⟩
  · rw [index, lookup_store]
  · rw [recordsAt_addEdges stored known, recordsAt_store indexed.filed]
  · rw [get?_addEdges stored known, get?_store indexed]

end Memory

/-- A save that fails has changed nothing, and one that succeeds has stored the batch and added
every edge. It succeeds exactly if writing is enabled and each edge starts in the batch or at a
record; in that case the record is found when it comes to the edge, whatever came before. -/
theorem Memory.saved_whole_or_not_at_all {m : Memory} (reached : m.Reachable) (snapshot : Nat)
    (operations : List Operation) (edges : List Edge) :
    let write := Write.save snapshot operations edges
    let acceptable := m.readOnly = false ∧ write.Fits {id | id ∈ m.snapshotOf}
    (∀ error, (m.perform write).1 = .error error → (m.perform write).2 = m) ∧
    ((m.perform write).1 = .ok () ↔ acceptable) ∧
    (acceptable → m.perform write = (m.store snapshot operations).addEdges edges ∧
      ∀ before edge behind, edges = before ++ edge :: behind →
        ∃ written, (m.store snapshot operations).addEdges before = (.ok (), written) ∧
          (written.get? edge.operation).isSome = true) ∧
    ((m.perform write).1 = .ok () → m.HasSaved snapshot operations edges (m.perform write).2) := by
  intro write acceptable
  have indexed := reached.indexed
  have stored : (m.store snapshot operations).Indexed := indexed.store
  have known (fits : write.Fits {id | id ∈ m.snapshotOf}) :
      ∀ edge ∈ edges, edge.operation ∈ (m.store snapshot operations).snapshotOf := by
    intro edge member
    rw [Std.ExtTreeMap.mem_iff_isSome_getElem?, lookup_store]
    rcases fits edge member with recorded | listed
    · split
      · rfl
      · exact Std.ExtTreeMap.mem_iff_isSome_getElem?.mp recorded
    · rw [if_pos listed]
      rfl
  have performed (accepted : acceptable) :
      m.perform write = (m.store snapshot operations).addEdges edges := by
    rw [perform_unlocked accepted.1]
    refine save_fitting (List.find?_eq_none.mpr fun edge member => ?_)
    rcases accepted.2 edge member with recorded | listed
    · simp [Std.ExtTreeMap.contains_iff_mem.mpr recorded]
    · simp [listed]
  refine ⟨fun error => perform_rejected indexed, perform_ok_iff indexed, fun accepted =>
    ⟨performed accepted, ?_⟩, fun done => ?_⟩
  · rintro before edge behind rfl
    have all := known accepted.2
    obtain ⟨succeeded, after, index, -⟩ := addEdges_known stored fun earlier member =>
      all earlier (List.mem_append_left _ member)
    obtain ⟨place, filed⟩ := Option.isSome_iff_exists.mp
      (Std.ExtTreeMap.mem_iff_isSome_getElem?.mp
        (all edge (List.mem_append_right _ List.mem_cons_self)))
    exact ⟨_, Prod.ext succeeded rfl, after.isSome_get? (index ▸ filed)⟩
  · have accepted := (perform_ok_iff indexed).mp done
    rw [performed accepted]
    exact hasSaved_addEdges indexed (known accepted.2)

/-- A batch that names an operation twice and an empty one have been saved, then one of their two
operations has been deleted. -/
def twiceSaved : Memory :=
  let saves : List Write := [
    .save 1 [.new (.ofNat 1), .new (.ofNat 2), .new (.ofNat 1)] [⟨.ofNat 1, .ofNat 2⟩],
    .save 2 [] [],
    .delete (.ofNat 2)]
  saves.foldl (fun m write => (m.perform write).2) .empty

/-- The second of two edges starts nowhere, so not even the batch is stored; without it both the
batch and the first edge are, which the record it starts at then shows beside its former one. -/
theorem second_edge_astray :
    let again := [Operation.new (.ofNat 2), Operation.new (.ofNat 2)]
    let astray := Write.save 2 again [⟨.ofNat 1, .ofNat 4⟩, ⟨.ofNat 3, .ofNat 1⟩]
    let fitting := Write.save 2 again [⟨.ofNat 1, .ofNat 4⟩]
    (twiceSaved.perform astray).1 = .error (.unknownOperation (.ofNat 3)) ∧
    (twiceSaved.perform astray).2 = twiceSaved ∧
    (twiceSaved.perform fitting).1 = .ok () ∧
    twiceSaved.HasSaved 2 again [⟨.ofNat 1, .ofNat 4⟩] (twiceSaved.perform fitting).2 ∧
    ((twiceSaved.perform fitting).2.get? (.ofNat 1)).map (·.dependencies.toList) =
      some [.ofNat 2, .ofNat 4] := by
  intro again astray fitting
  have reached : twiceSaved.Reachable := .write (.write (.write .empty _) _) _
  have refused : (twiceSaved.perform astray).1 = .error (.unknownOperation (.ofNat 3)) := by
    decide +kernel
  have taken : (twiceSaved.perform fitting).1 = .ok () := by decide +kernel
  obtain ⟨unchanged, -⟩ := Memory.saved_whole_or_not_at_all reached 2 again
    [⟨.ofNat 1, .ofNat 4⟩, ⟨.ofNat 3, .ofNat 1⟩]
  obtain ⟨-, -, -, saved⟩ := Memory.saved_whole_or_not_at_all reached 2 again
    [⟨.ofNat 1, .ofNat 4⟩]
  refine ⟨refused, unchanged _ refused, taken, saved taken, ?_⟩
  rw [(saved taken).found]
  decide +kernel

end CommitPipeline
