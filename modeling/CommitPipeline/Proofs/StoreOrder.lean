import Mathlib.Data.List.Perm.Basic
import CommitPipeline.Proofs.SlotFilling

/-! Starts and deletions may be written in any order. A start that is written changes one record,
and a deletion takes one out; where they are about different operations, neither sees the other, and
a record that is deleted does not tell whether it was started before. This holds of all memories,
since a write about an unknown operation changes nothing. -/
namespace CommitPipeline

namespace Memory
variable {m : Memory} {id other : OperationId} {place : Nat}
  {change otherChange : Operation → Operation} {operations : List Operation}
  {ids others : List OperationId}

theorem ext_lookup {one other : Memory}
    (graphs : ∀ place : Nat, one.graphs[place]? = other.graphs[place]?)
    (snapshotOf : one.snapshotOf = other.snapshotOf) (readOnly : one.readOnly = other.readOnly) :
    one = other := by
  cases one
  cases other
  simp only at graphs snapshotOf readOnly
  rw [snapshotOf, readOnly, Std.ExtTreeMap.ext_getElem? graphs]

/-- Changes of two records, in either order. -/
theorem changeFirst_comm (different : id ≠ other) (kept : ∀ op, (change op).id = op.id)
    (otherKept : ∀ op, (otherChange op).id = op.id) :
    changeFirst id change (changeFirst other otherChange operations) =
      changeFirst other otherChange (changeFirst id change operations) := by
  induction operations with
  | nil => rfl
  | cons first rest ih =>
    by_cases here : first.id = id
    · have elsewhere : first.id ≠ other := fun there => different (here.symm.trans there)
      simp [changeFirst, here, kept, different]
    · by_cases there : first.id = other
      · simp [changeFirst, there, otherKept, Ne.symm different]
      · simp [changeFirst, here, there, ih]

/-- The records that are left under a snapshot, or no entry. -/
def leftOf (operations : List Operation) : Option (List Operation) :=
  match operations with
  | [] => none
  | operations => some operations

theorem leftOf_changeFirst : leftOf (changeFirst id change operations) =
    (leftOf operations).map (changeFirst id change) := by
  cases operations with
  | nil => rfl
  | cons first rest =>
    rw [changeFirst]
    split <;> rename_i here <;> simp [leftOf, changeFirst, here]

theorem leftOf_getD (operations : List Operation) : (leftOf operations).getD [] = operations := by
  cases operations <;> rfl

theorem graphs_update (m : Memory) (id : OperationId) (change : Operation → Operation)
    (place : Nat) : (m.update id change).2.graphs[place]? =
      if m.snapshotOf[id]? = some place then m.graphs[place]?.map (changeFirst id change)
      else m.graphs[place]? := by
  unfold update
  split
  · rename_i unknown
    rw [unknown, if_neg nofun]
  · rename_i snapshot known
    rw [known]
    by_cases found : (m.get? id).isSome = true
    · rw [if_pos found, Std.ExtTreeMap.getElem?_modify]
      by_cases here : snapshot = place <;> simp [here]
    · -- Without a record the change would find nothing to change either.
      rw [if_neg found]
      by_cases here : snapshot = place
      · subst here
        rw [if_pos rfl]
        cases kept : m.graphs[snapshot]? with
        | none => rfl
        | some operations =>
          have absent : ∀ op ∈ operations, op.id ≠ id := by
            simpa [get?, known, kept] using found
          rw [Option.map_some, changeFirst_of_absent absent]
      · rw [if_neg (by simpa using here)]

theorem graphs_delete (m : Memory) (id : OperationId) (place : Nat) :
    (m.delete id).2.graphs[place]? =
      if m.snapshotOf[id]? = some place then
        leftOf ((m.graphs[place]?.getD []).filter (·.id ≠ id))
      else m.graphs[place]? := by
  unfold delete
  split
  · rename_i unknown
    rw [unknown, if_neg nofun]
  · rename_i snapshot known
    rw [known, Std.ExtTreeMap.getElem?_alter]
    by_cases here : snapshot = place
    · subst here
      rw [if_pos Std.compare_self, if_pos rfl]
      cases (m.graphs[snapshot]?.getD []).filter (·.id ≠ id) <;> rfl
    · simp [here]

/-! ### Two writes in either order -/

theorem update_comm (m : Memory) (different : id ≠ other) (kept : ∀ op, (change op).id = op.id)
    (otherKept : ∀ op, (otherChange op).id = op.id) :
    ((m.update id change).2.update other otherChange).2 =
      ((m.update other otherChange).2.update id change).2 := by
  refine ext_lookup (fun place => ?_) ?_ ?_
  · simp only [graphs_update, snapshotOf_update]
    by_cases here : m.snapshotOf[id]? = some place <;>
      by_cases there : m.snapshotOf[other]? = some place <;>
      simp only [here, there, ↓reduceIte, Option.map_map, Function.comp_def]
    simp only [changeFirst_comm different kept otherKept]
  · simp only [snapshotOf_update]
  · simp only [readOnly_update]

theorem snapshotOf_delete_congr {one other : Memory} (same : one.snapshotOf = other.snapshotOf) :
    (one.delete id).2.snapshotOf = (other.delete id).2.snapshotOf :=
  Std.ExtTreeMap.ext_getElem? fun key => by rw [lookup_delete, lookup_delete, same]

theorem update_delete (m : Memory) (different : id ≠ other)
    (kept : ∀ op, (change op).id = op.id) :
    ((m.update id change).2.delete other).2 = ((m.delete other).2.update id change).2 := by
  refine ext_lookup (fun place => ?_) ?_ ?_
  · simp only [graphs_update, graphs_delete, snapshotOf_update, lookup_delete,
      if_neg (Ne.symm different)]
    by_cases there : m.snapshotOf[other]? = some place
    · by_cases here : m.snapshotOf[id]? = some place
      · simp only [here, there, ↓reduceIte]
        rw [← leftOf_changeFirst,
          ← filter_changeFirst kept (fun id => id ≠ other) (decide_eq_true different)]
        cases m.graphs[place]? <;> rfl
      · simp only [here, there, ↓reduceIte]
    · simp only [there, ↓reduceIte]
  · rw [snapshotOf_update]
    exact snapshotOf_delete_congr (snapshotOf_update ..)
  · simp only [readOnly_update, readOnly_delete]

/-- A record that is deleted does not tell whether it was changed before. -/
theorem update_delete_self (m : Memory) (kept : ∀ op, (change op).id = op.id) :
    ((m.update id change).2.delete id).2 = (m.delete id).2 := by
  refine ext_lookup (fun place => ?_) (snapshotOf_delete_congr (snapshotOf_update ..)) ?_
  · simp only [graphs_update, graphs_delete, snapshotOf_update]
    by_cases here : m.snapshotOf[id]? = some place
    · simp only [here, ↓reduceIte]
      cases m.graphs[place]? with
      | none => rfl
      | some operations =>
        refine congrArg leftOf (filter_changeFirst_other kept (fun other => other ≠ id) ?_)
        exact decide_eq_false (not_not_intro rfl)
    · simp only [here, ↓reduceIte]
  · simp only [readOnly_update, readOnly_delete]

theorem delete_comm (m : Memory) (id other : OperationId) :
    ((m.delete id).2.delete other).2 = ((m.delete other).2.delete id).2 := by
  by_cases same : id = other
  · rw [same]
  · refine ext_lookup (fun place => ?_) (Std.ExtTreeMap.ext_getElem? fun key => ?_) ?_
    · simp only [graphs_delete, lookup_delete, if_neg same, if_neg (Ne.symm same)]
      by_cases here : m.snapshotOf[id]? = some place <;>
        by_cases there : m.snapshotOf[other]? = some place <;>
        simp only [here, there, ↓reduceIte, leftOf_getD, List.filter_filter, Bool.and_comm]
    · simp only [lookup_delete]
      split <;> split <;> rfl
    · simp only [readOnly_delete]

/-! ### Starts and deletions -/

theorem mark_comm (m : Memory) (id other : OperationId) :
    (m.mark id).mark other = (m.mark other).mark id := by
  by_cases same : id = other
  · rw [same]
  · exact (update_comm m same (fun _ => rfl) fun _ => rfl)

/-- Starts may be written in any order. -/
theorem markAll_perm (perm : ids.Perm others) (m : Memory) :
    ids.foldl mark m = others.foldl mark m :=
  perm.foldl_eq' (fun id _ other _ m => mark_comm m id other) m

/-- Starts that were written before a deletion may as well be written after it, but for that of the
deleted operation. -/
theorem delete_markAll (ids : List OperationId) (m : Memory) (id : OperationId) :
    ((ids.foldl mark m).delete id).2 = (ids.filter (· ≠ id)).foldl mark (m.delete id).2 := by
  induction ids generalizing m with
  | nil => rfl
  | cons first rest ih =>
    rw [List.foldl_cons, ih]
    by_cases here : first = id
    · have unmarked : ((m.mark first).delete id).2 = (m.delete id).2 :=
        here ▸ update_delete_self m fun _ => rfl
      rw [unmarked, List.filter_cons_of_neg (by simpa using here)]
    · have later : ((m.mark first).delete id).2 = (m.delete id).2.mark first :=
        update_delete m here fun _ => rfl
      rw [later, List.filter_cons_of_pos (by simpa using here), List.foldl_cons]

end Memory
end CommitPipeline
