import CommitPipeline.Engine

/-! What is found in a table once it has been changed. The engine changes its table by inserting,
modifying and erasing, one operation after the other; what a whole chain of such changes leaves
under an identifier is said here once. -/
namespace CommitPipeline

variable {table : Table} {id other : OperationId} {op : Operation}

theorem mem_table : id ∈ table ↔ ∃ op, table[id]? = some op := by
  rw [Std.ExtTreeMap.mem_iff_isSome_getElem?, Option.isSome_iff_exists]

/-- What holds of all operations can be checked on the list of them. -/
theorem forall_table {p : OperationId → Operation → Prop} :
    (∀ entry ∈ table.toList, p entry.1 entry.2) ↔
      ∀ (id : OperationId) (op : Operation), table[id]? = some op → p id op := by
  simp only [Prod.forall, Std.ExtTreeMap.mem_toList_iff_getElem?_eq_some]

@[simp] theorem lookup_modify (change : Operation → Operation) :
    (table.modify id change)[other]? =
      if id = other then table[other]?.map change else table[other]? := by
  rw [Std.ExtTreeMap.getElem?_modify]
  by_cases same : id = other
  · subst same
    simp
  · simp [same]

@[simp] theorem lookup_insert :
    (table.insert id op)[other]? = if id = other then some op else table[other]? := by
  simp [Std.ExtTreeMap.getElem?_insert]

@[simp] theorem lookup_erase :
    (table.erase id)[other]? = if id = other then none else table[other]? := by
  simp [Std.ExtTreeMap.getElem?_erase]

/-- The values of a map are those of its entries. -/
theorem values_eq_map_toList {α β : Type} [Ord α] [Std.TransOrd α] (map : Std.ExtTreeMap α β) :
    map.values = map.toList.map (·.2) := by
  obtain ⟨inner⟩ := map
  induction inner using Std.ExtDTreeMap.inductionOn with
  | mk tree =>
    change tree.inner.values = (Std.DTreeMap.Internal.Impl.Const.toList tree.inner).map (·.2)
    rw [Std.DTreeMap.Internal.Impl.values_eq_map_snd,
      Std.DTreeMap.Internal.Impl.Const.toList_eq_toListModel_map, List.map_map]
    rfl

/-- Every operation is filed under its own identifier. -/
def Table.Keyed (table : Table) : Prop :=
  ∀ (id : OperationId) (op : Operation), table[id]? = some op → op.id = id

theorem Table.Keyed.insert (keyed : table.Keyed) : Table.Keyed (table.insert op.id op) := by
  intro other found held
  rw [lookup_insert] at held
  split at held
  · rename_i same
    exact Option.some.inj held ▸ same
  · exact keyed other found held

theorem mem_values : op ∈ table.values ↔ ∃ id : OperationId, table[id]? = some op := by
  simp only [values_eq_map_toList, List.mem_map, Prod.exists, exists_eq_right,
    Std.ExtTreeMap.mem_toList_iff_getElem?_eq_some]

namespace Core

theorem lookup_enlist_other {operations : List Operation}
    (absent : id ∉ operations.map (·.id)) : (enlist table operations)[id]? = table[id]? := by
  induction operations generalizing table with
  | nil => rfl
  | cons first rest ih =>
    simp only [List.map_cons, List.mem_cons, not_or] at absent
    exact (ih absent.2).trans (by rw [lookup_insert, if_neg (Ne.symm absent.1)])

theorem lookup_enlist_member {operations : List Operation}
    (distinct : (operations.map (·.id)).Nodup) (member : op ∈ operations) :
    (enlist table operations)[op.id]? = some op := by
  induction operations generalizing table with
  | nil => cases member
  | cons first rest ih =>
    obtain ⟨absent, distinctRest⟩ := List.nodup_cons.mp distinct
    rcases List.mem_cons.mp member with rfl | later
    · exact (lookup_enlist_other absent).trans (by rw [lookup_insert, if_pos rfl])
    · exact ih distinctRest later

/-- Edges change nothing of an operation but its dependencies. -/
theorem withEdges_eq (edges : List Edge) (op : Operation) :
    withEdges edges op = { op with dependencies := (withEdges edges op).dependencies } := by
  induction edges generalizing op with
  | nil => rfl
  | cons edge rest ih =>
    rw [withEdges, List.foldl_cons]
    refine (ih _).trans ?_
    split <;> rfl

@[simp] theorem withEdges_id (edges : List Edge) (op : Operation) :
    (withEdges edges op).id = op.id := by rw [withEdges_eq]

@[simp] theorem withEdges_snapshot (edges : List Edge) (op : Operation) :
    (withEdges edges op).snapshot = op.snapshot := by rw [withEdges_eq]

@[simp] theorem withEdges_pipeline (edges : List Edge) (op : Operation) :
    (withEdges edges op).pipeline = op.pipeline := by rw [withEdges_eq]

@[simp] theorem withEdges_status (edges : List Edge) (op : Operation) :
    (withEdges edges op).status = op.status := by rw [withEdges_eq]

theorem mem_withEdges {edges : List Edge} {op : Operation} {id : OperationId} :
    id ∈ (withEdges edges op).dependencies ↔
      id ∈ op.dependencies ∨ ∃ edge ∈ edges, edge.operation = op.id ∧ edge.dependsOn = id := by
  induction edges generalizing op with
  | nil => simp [withEdges]
  | cons edge rest ih =>
    rw [withEdges, List.foldl_cons]
    refine ih.trans ?_
    by_cases starts : edge.operation = op.id
    · simp [starts, Operation.dependingOn, or_assoc, or_left_comm]
    · simp [starts]

/-- Adding edges to a table one after the other adds to each operation those that start at it. -/
theorem lookup_addEdges (edges : List Edge) (keyed : table.Keyed) :
    (edges.foldl (fun table e => table.modify e.operation (·.dependingOn e.dependsOn))
      table)[id]? = table[id]?.map (withEdges edges) := by
  induction edges generalizing table with
  | nil => exact (Option.map_id' ..).symm
  | cons edge rest ih =>
    rw [List.foldl_cons, ih, lookup_modify]
    · cases found : table[id]? with
      | none => simp
      | some op =>
        have named := keyed id op found
        by_cases starts : edge.operation = id
        · simp [starts, withEdges, named]
        · simp [starts, withEdges, named]
    · intro key op found
      rw [lookup_modify] at found
      split at found
      · obtain ⟨old, held, rfl⟩ := Option.map_eq_some_iff.mp found
        exact keyed key old held
      · exact keyed key op found

end Core
end CommitPipeline
