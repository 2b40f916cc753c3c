import Mathlib.Data.List.Dedup
import Mathlib.Data.List.Find
import CommitPipeline.Proofs.StoredBatches

/-! A memory as a plain register. The register is one list of records, each with the snapshot that
it is stored under and no identifier twice; there is no index that could disagree with it. Whatever
is written, a memory answers like the register and returns the same, and each identifier that its
index knows has exactly one record. -/
namespace CommitPipeline

/-- What is done to a store from outside. -/
inductive StoreCall where
  | write (write : Write)
  /-- Disables or enables writing. -/
  | lock (readOnly : Bool)

/-- A batch that is saved names no operation twice. -/
def StoreCall.Distinct : StoreCall → Prop
  | .write (.save _ operations _) => (operations.map (·.id)).Nodup
  | _ => True

/-- The answers to calls that are made one after the other, and what they lead to. -/
def answerAll {σ : Type} (answer : σ → StoreCall → Except Error Unit × σ) (store : σ) :
    List StoreCall → List (Except Error Unit) × σ
  | [] => ([], store)
  | call :: rest =>
    let (result, next) := answer store call
    let (results, last) := answerAll answer next rest
    (result :: results, last)

def Memory.answer (m : Memory) : StoreCall → Except Error Unit × Memory
  | .write write => m.perform write
  | .lock readOnly => (.ok (), { m with readOnly })

/-- The records of a store in a list, each with its snapshot. -/
structure Register where
  rows : List (Nat × Operation)
  readOnly : Bool

namespace Register

def empty : Register := ⟨[], false⟩

def ids (r : Register) : List OperationId := r.rows.map (·.2.id)

def get? (r : Register) (id : OperationId) : Option Operation :=
  (r.rows.find? (·.2.id = id)).map (·.2)

def changed (id : OperationId) (change : Operation → Operation) (rows : List (Nat × Operation)) :
    List (Nat × Operation) :=
  rows.map fun (snapshot, op) => (snapshot, if op.id = id then change op else op)

/-- A record replaces the one with its identifier and stands last. -/
def put (snapshot : Nat) (rows : List (Nat × Operation)) (op : Operation) :
    List (Nat × Operation) :=
  rows.filter (·.2.id ≠ op.id) ++ [(snapshot, op)]

/-- Every edge adds a dependency to the record that it starts at. -/
def joined (edges : List Edge) (rows : List (Nat × Operation)) : List (Nat × Operation) :=
  edges.foldl (fun rows edge => changed edge.operation
    (fun op => { op with dependencies := op.dependencies.insert edge.dependsOn }) rows) rows

def save (r : Register) (snapshot : Nat) (operations : List Operation) (edges : List Edge) :
    Except Error Unit × Register :=
  match edges.find? fun edge => edge.operation ∉ operations.map (·.id) ++ r.ids with
  | some edge => (.error (.unknownOperation edge.operation), r)
  | none => (.ok (), { r with rows := joined edges (operations.foldl (put snapshot) r.rows) })

def update (r : Register) (id : OperationId) (change : Operation → Operation) :
    Except Error Unit × Register :=
  if id ∈ r.ids then (.ok (), { r with rows := changed id change r.rows })
  else (.error (.unknownOperation id), r)

def delete (r : Register) (id : OperationId) : Except Error Unit × Register :=
  if id ∈ r.ids then (.ok (), { r with rows := r.rows.filter (·.2.id ≠ id) })
  else (.error (.unknownOperation id), r)

def answer (r : Register) : StoreCall → Except Error Unit × Register
  | .lock readOnly => (.ok (), { r with readOnly })
  | .write write =>
    if r.readOnly then (.error (.storage .readOnly), r)
    else match write with
      | .save snapshot operations edges => r.save snapshot operations edges
      | .status id status => r.update id ({ · with status })
      | .hold id hold => r.update id ({ · with hold })
      | .statusAndHold id status hold => r.update id ({ · with status, hold })
      | .delete id => r.delete id

/-- The records of a pipeline by ascending snapshot, those of one snapshot in the order of the
list. -/
def restore (r : Register) (names : Names) : List Batch :=
  let own := r.rows.filter fun row => names.owns row.2.pipeline
  (own.map (·.1)).dedup.mergeSort.map fun snapshot =>
    ⟨snapshot, (own.filter (·.1 = snapshot)).map (·.2)⟩

/-! ### The rows of one snapshot -/

variable {rows : List (Nat × Operation)} {id : OperationId} {change : Operation → Operation}
  {operations : List Operation} {snapshot place : Nat}

/-- The records of a snapshot in the order of the list. -/
def rowsAt (place : Nat) (rows : List (Nat × Operation)) : List Operation :=
  (rows.filter (·.1 = place)).map (·.2)

theorem mem_rowsAt {op : Operation} : op ∈ rowsAt place rows ↔ (place, op) ∈ rows := by
  simp [rowsAt]

theorem rowsAt_filter (kept : Operation → Bool) :
    rowsAt place (rows.filter fun row => kept row.2) = (rowsAt place rows).filter kept := by
  simp only [rowsAt, List.filter_filter, List.filter_map, Function.comp_def, Bool.and_comm]

/-- The identifiers of the records stand as they stood. -/
theorem ids_changed (kept : ∀ op, (change op).id = op.id) :
    (changed id change rows).map (·.2.id) = rows.map (·.2.id) := by
  rw [changed, List.map_map]
  refine List.map_congr_left fun row _ => ?_
  simp only [Function.comp_apply]
  split
  · exact kept row.2
  · rfl

/-- Where no identifier stands twice, changing the first record changes all. -/
theorem changeFirst_eq_map (distinct : (operations.map (·.id)).Nodup) :
    Memory.changeFirst id change operations =
      operations.map fun op => if op.id = id then change op else op := by
  induction operations with
  | nil => rfl
  | cons first rest ih =>
    obtain ⟨absent, distinctRest⟩ := List.nodup_cons.mp distinct
    rw [Memory.changeFirst, List.map_cons]
    by_cases here : first.id = id
    · have others : rest.map (fun op => if op.id = id then change op else op) = rest := by
        refine (List.map_congr_left fun op member => if_neg fun named => ?_).trans rest.map_id
        exact absent (List.mem_map.mpr ⟨op, member, named.trans here.symm⟩)
      rw [if_pos here, if_pos here, others]
    · rw [if_neg here, if_neg here, ih distinctRest]

theorem rowsAt_changed (distinct : (rows.map (·.2.id)).Nodup) :
    rowsAt place (changed id change rows) =
      Memory.changeFirst id change (rowsAt place rows) := by
  have distinctHere : ((rowsAt place rows).map (·.id)).Nodup := by
    rw [rowsAt, List.map_map]
    exact distinct.sublist (List.filter_sublist.map _)
  rw [changeFirst_eq_map distinctHere, rowsAt, rowsAt, changed, List.filter_map, List.map_map,
    List.map_map]
  rfl

/-- The records of a batch without repetitions replace the ones there were, and follow all
others. -/
theorem foldl_put (distinct : (operations.map (·.id)).Nodup) :
    operations.foldl (put snapshot) rows =
      rows.filter (·.2.id ∉ operations.map (·.id)) ++ operations.map (snapshot, ·) := by
  induction operations generalizing rows with
  | nil => simp
  | cons first rest ih =>
    obtain ⟨absent, distinctRest⟩ := List.nodup_cons.mp distinct
    have kept : [(snapshot, first)].filter (·.2.id ∉ rest.map (·.id)) = [(snapshot, first)] :=
      List.filter_eq_self.mpr (by simpa using absent)
    rw [List.foldl_cons, ih distinctRest, put, List.filter_append, kept, List.filter_filter,
      List.append_assoc, List.map_cons, List.map_cons, List.singleton_append]
    congr 1
    refine List.filter_congr fun row _ => ?_
    simp only [List.mem_cons, not_or, Bool.decide_and, Bool.and_comm]

/-! ### What is returned to a pipeline -/

variable {r : Register} {names : Names} {batch : Batch}

theorem mem_restore : batch ∈ r.restore names ↔ batch.operations ≠ [] ∧
    batch.operations =
      (rowsAt batch.snapshot r.rows).filter fun op => names.owns op.pipeline := by
  have own (place : Nat) : ((r.rows.filter fun row => names.owns row.2.pipeline).filter
      (·.1 = place)).map (·.2) = (rowsAt place r.rows).filter fun op => names.owns op.pipeline :=
    rowsAt_filter fun op => names.owns op.pipeline
  obtain ⟨snapshot, operations⟩ := batch
  simp only [restore, own, List.mem_map, List.mem_mergeSort, List.mem_dedup, Batch.mk.injEq]
  constructor
  · rintro ⟨place, ⟨⟨_, op⟩, row, rfl⟩, rfl, rfl⟩
    obtain ⟨row, owned⟩ := List.mem_filter.mp row
    exact ⟨List.ne_nil_of_mem (List.mem_filter.mpr ⟨mem_rowsAt.mpr row, owned⟩), rfl⟩
  · rintro ⟨nonempty, rfl⟩
    obtain ⟨op, member⟩ := List.exists_mem_of_ne_nil _ nonempty
    obtain ⟨row, owned⟩ := List.mem_filter.mp member
    exact ⟨snapshot, ⟨(snapshot, op), List.mem_filter.mpr ⟨mem_rowsAt.mp row, owned⟩, rfl⟩,
      rfl, rfl⟩

theorem restore_ascending (r : Register) (names : Names) :
    (r.restore names).Pairwise (·.snapshot < ·.snapshot) := by
  rw [restore, List.pairwise_map]
  generalize ((r.rows.filter fun row => names.owns row.2.pipeline).map (·.1)) = snapshots
  have sorted : snapshots.dedup.mergeSort.Pairwise fun a b => decide (a ≤ b) = true :=
    List.pairwise_mergeSort (fun a b c ab bc => by simp only [decide_eq_true_eq] at *; omega)
      (fun a b => by simp only [Bool.or_eq_true, decide_eq_true_eq]; omega) _
  have distinct : snapshots.dedup.mergeSort.Nodup :=
    (List.mergeSort_perm ..).nodup_iff.mpr snapshots.nodup_dedup
  have ascending : snapshots.dedup.mergeSort.Pairwise (· < ·) :=
    (sorted.and distinct).imp fun both => lt_of_le_of_ne (of_decide_eq_true both.1) both.2
  exact ascending

end Register

namespace Memory
variable {m : Memory} {r : Register} {id : OperationId} {operations : List Operation}
  {edges : List Edge} {snapshot place : Nat} {op : Operation}

/-- A memory keeps what a register lists, snapshot by snapshot in the same order. -/
structure Keeps (m : Memory) (r : Register) : Prop where
  indexed : m.Indexed
  readOnly : m.readOnly = r.readOnly
  distinct : r.ids.Nodup
  records : ∀ place, m.recordsAt place = Register.rowsAt place r.rows

theorem keeps_empty : empty.Keeps .empty where
  indexed := indexed_empty
  readOnly := rfl
  distinct := List.nodup_nil
  records place := by simp [recordsAt, empty, Register.empty, Register.rowsAt]

/-! ### What a memory and a register return -/

theorem Keeps.lookup_row (keeps : m.Keeps r) (row : (place, op) ∈ r.rows) :
    m.snapshotOf[op.id]? = some place :=
  keeps.indexed.filed place op (keeps.records place ▸ Register.mem_rowsAt.mpr row)

theorem Keeps.known_iff (keeps : m.Keeps r) : id ∈ m.snapshotOf ↔ id ∈ r.ids := by
  rw [Std.ExtTreeMap.mem_iff_isSome_getElem?, Option.isSome_iff_exists, Register.ids,
    List.mem_map]
  constructor
  · rintro ⟨place, known⟩
    obtain ⟨op, member, named⟩ := keeps.indexed.backed id place known
    rw [keeps.records] at member
    exact ⟨(place, op), Register.mem_rowsAt.mp member, named⟩
  · rintro ⟨⟨place, op⟩, row, rfl⟩
    exact ⟨place, keeps.lookup_row row⟩

theorem Keeps.get?_eq (keeps : m.Keeps r) (id : OperationId) : m.get? id = r.get? id := by
  rw [Register.get?]
  cases found : r.rows.find? (·.2.id = id) with
  | none =>
    have unknown : m.snapshotOf[id]? = none := by
      refine Std.ExtTreeMap.getElem?_eq_none fun known => ?_
      obtain ⟨row, member, named⟩ := List.mem_map.mp (keeps.known_iff.mp known)
      exact absurd named (by simpa using List.find?_eq_none.mp found row member)
    rw [Memory.get?_eq, unknown]
    rfl
  | some row =>
    obtain ⟨place, op⟩ := row
    obtain rfl : op.id = id := by simpa using List.find?_some found
    have row := List.mem_of_find?_eq_some found
    refine get?_of_mem keeps.indexed (keeps.records place ▸ Register.mem_rowsAt.mpr row) ?_
    intro other member same
    rw [keeps.records] at member
    exact congrArg Prod.snd
      (List.inj_on_of_nodup_map keeps.distinct (Register.mem_rowsAt.mp member) row same)

theorem Keeps.size_eq (keeps : m.Keeps r) : m.size = r.rows.length := by
  have same : m.snapshotOf.keys.Perm r.ids :=
    (List.perm_ext_iff_of_nodup Std.ExtTreeMap.nodup_keys keeps.distinct).mpr fun id =>
      Std.ExtTreeMap.mem_keys.trans keeps.known_iff
  rw [size, ← Std.ExtTreeMap.length_keys, same.length_eq, Register.ids, List.length_map]

theorem Keeps.restore_eq (keeps : m.Keeps r) (names : Names) :
    m.restore names = r.restore names := by
  refine Batch.ascending_ext (m.restore_ascending names) (r.restore_ascending names) ?_
  intro batch
  rw [mem_restore, Register.mem_restore, keeps.records]

/-- Each identifier in the index has one record in all batches, and no other has any. -/
theorem Keeps.countP_records (keeps : m.Keeps r) (id : OperationId) :
    (m.batches.flatMap (·.operations)).countP (·.id = id) =
      if id ∈ m.snapshotOf then 1 else 0 := by
  have rowsOf {batch : Batch} (member : batch ∈ m.batches) :
      batch.operations = Register.rowsAt batch.snapshot r.rows := by
    rw [← recordsAt_batch member, keeps.records]
  have distinct : ((m.batches.flatMap (·.operations)).map (·.id)).Nodup := by
    rw [List.map_flatMap]
    refine List.nodup_flatMap.mpr ⟨fun batch member => ?_, ?_⟩
    · rw [rowsOf member, Register.rowsAt, List.map_map]
      exact keeps.distinct.sublist (List.filter_sublist.map _)
    · -- Two batches with a common identifier stand under one snapshot.
      refine m.batches_ascending.imp_of_mem fun {one other} first second lower => ?_
      refine List.disjoint_left.mpr fun id member memberToo => ?_
      obtain ⟨op, listed, rfl⟩ := List.mem_map.mp member
      obtain ⟨twin, listedToo, named⟩ := List.mem_map.mp memberToo
      rw [rowsOf first] at listed
      rw [rowsOf second] at listedToo
      have place := keeps.lookup_row (Register.mem_rowsAt.mp listed)
      have placeToo := keeps.lookup_row (Register.mem_rowsAt.mp listedToo)
      rw [named, place] at placeToo
      exact absurd (Option.some.inj placeToo) (by omega)
  have listed : id ∈ (m.batches.flatMap (·.operations)).map (·.id) ↔ id ∈ m.snapshotOf := by
    simp only [List.mem_map, List.mem_flatMap]
    constructor
    · rintro ⟨op, ⟨batch, member, inside⟩, rfl⟩
      rw [rowsOf member] at inside
      exact keeps.known_iff.mpr
        (List.mem_map_of_mem (f := (·.2.id)) (Register.mem_rowsAt.mp inside))
    · intro known
      obtain ⟨⟨place, op⟩, row, rfl⟩ := List.mem_map.mp (keeps.known_iff.mp known)
      have member : op ∈ m.recordsAt place :=
        keeps.records place ▸ Register.mem_rowsAt.mpr row
      obtain ⟨batch, stored, -, inside⟩ := exists_batch member
      exact ⟨op, ⟨batch, stored, inside⟩, rfl⟩
  have counted := distinct.count (a := id)
  rw [List.count_eq_countP, List.countP_map] at counted
  simp only [listed] at counted
  exact counted

/-! ### What a call does to both -/

theorem Keeps.changed {change : Operation → Operation} (keeps : m.Keeps r)
    (kept : ∀ op, (change op).id = op.id) :
    (m.update id change).2.Keeps { r with rows := Register.changed id change r.rows } where
  indexed := keeps.indexed.update kept
  readOnly := (readOnly_update m id change).trans keeps.readOnly
  distinct := by
    rw [Register.ids, Register.ids_changed kept]
    exact keeps.distinct
  records place := by
    rw [recordsAt_update keeps.indexed, keeps.records, Register.rowsAt_changed keeps.distinct]

theorem Keeps.joined (keeps : m.Keeps r) (known : ∀ edge ∈ edges, edge.operation ∈ m.snapshotOf) :
    (m.addEdges edges).2.Keeps { r with rows := Register.joined edges r.rows } := by
  induction edges generalizing m r with
  | nil => exact keeps
  | cons edge rest ih =>
    rw [addEdges_cons keeps.indexed (known edge List.mem_cons_self)]
    have updated : (m.update edge.operation (·.dependingOn edge.dependsOn)).2.Keeps _ :=
      keeps.changed fun _ => rfl
    exact ih updated (known_updated known)

theorem Keeps.store (keeps : m.Keeps r) (distinct : (operations.map (·.id)).Nodup) :
    (m.store snapshot operations).Keeps
      { r with rows := operations.foldl (Register.put snapshot) r.rows } := by
  rw [Register.foldl_put distinct]
  refine ⟨keeps.indexed.store, readOnly_refileAll.trans keeps.readOnly, ?_, fun place => ?_⟩
  · simp only [Register.ids, List.map_append, List.map_map, Function.comp_def]
    refine List.Nodup.append (keeps.distinct.sublist (List.filter_sublist.map _)) distinct ?_
    rw [List.disjoint_left]
    intro id old new
    obtain ⟨row, member, rfl⟩ := List.mem_map.mp old
    exact absurd new (by simpa using (List.mem_filter.mp member).2)
  · have replaced : Register.rowsAt place (r.rows.filter (·.2.id ∉ operations.map (·.id))) =
        (Register.rowsAt place r.rows).filter (·.id ∉ operations.map (·.id)) :=
      Register.rowsAt_filter fun op => op.id ∉ operations.map (·.id)
    rw [recordsAt_store keeps.indexed.filed, keeps.records, ← replaced, Register.rowsAt,
      Register.rowsAt, List.filter_append, List.map_append]
    congr 1
    by_cases here : snapshot = place
    · simp [here, List.filter_map, Function.comp_def]
    · simp [here, List.filter_map, Function.comp_def]

theorem Keeps.save (keeps : m.Keeps r) (distinct : (operations.map (·.id)).Nodup) :
    (m.save snapshot operations edges).1 = (r.save snapshot operations edges).1 ∧
      (m.save snapshot operations edges).2.Keeps (r.save snapshot operations edges).2 := by
  have stray : m.strayEdge? (operations.map (·.id)) edges =
      edges.find? fun edge => edge.operation ∉ operations.map (·.id) ++ r.ids := by
    refine List.find?_congr fun edge _ => ?_
    have known : m.snapshotOf.contains edge.operation = decide (edge.operation ∈ r.ids) := by
      rw [Bool.eq_iff_iff, Std.ExtTreeMap.contains_iff_mem, decide_eq_true_iff, keeps.known_iff]
    simp only [List.contains_eq_mem, known, List.mem_append, not_or, Bool.decide_and, decide_not]
  rw [Register.save, ← stray]
  rcases save_cases keeps.indexed snapshot operations edges with
    ⟨edge, found, rejected⟩ | ⟨fitting, saved, -⟩
  · rw [rejected, found]
    exact ⟨rfl, keeps⟩
  · refine ⟨by rw [saved, fitting], ?_⟩
    rw [save_fitting fitting, fitting]
    exact (keeps.store distinct).joined (known_store snapshot fitting)

theorem Keeps.update {change : Operation → Operation} (keeps : m.Keeps r)
    (kept : ∀ op, (change op).id = op.id) :
    (m.update id change).1 = (r.update id change).1 ∧
      (m.update id change).2.Keeps (r.update id change).2 := by
  rw [update_answer keeps.indexed, Register.update]
  by_cases known : id ∈ m.snapshotOf
  · rw [if_pos (Std.ExtTreeMap.contains_iff_mem.mpr known), if_pos (keeps.known_iff.mp known)]
    exact ⟨rfl, keeps.changed kept⟩
  · rw [if_neg (mt Std.ExtTreeMap.contains_iff_mem.mp known),
      if_neg (mt keeps.known_iff.mpr known),
      update_unknown (Std.ExtTreeMap.getElem?_eq_none known)]
    exact ⟨rfl, keeps⟩

theorem Keeps.delete (keeps : m.Keeps r) :
    (m.delete id).1 = (r.delete id).1 ∧ (m.delete id).2.Keeps (r.delete id).2 := by
  rw [delete_answer, Register.delete]
  by_cases known : id ∈ m.snapshotOf
  · rw [if_pos (Std.ExtTreeMap.contains_iff_mem.mpr known), if_pos (keeps.known_iff.mp known)]
    refine ⟨rfl, keeps.indexed.delete, (readOnly_delete m id).trans keeps.readOnly,
      keeps.distinct.sublist (List.filter_sublist.map _), fun place => ?_⟩
    rw [recordsAt_delete keeps.indexed, keeps.records]
    exact (Register.rowsAt_filter fun op => op.id ≠ id).symm
  · rw [if_neg (mt Std.ExtTreeMap.contains_iff_mem.mp known),
      if_neg (mt keeps.known_iff.mpr known)]
    refine ⟨rfl, ?_⟩
    rw [Memory.delete, Std.ExtTreeMap.getElem?_eq_none known]
    exact keeps

/-- A call has the same answer from both, and both go on alike. -/
theorem Keeps.answer (keeps : m.Keeps r) {call : StoreCall} (distinct : call.Distinct) :
    (m.answer call).1 = (r.answer call).1 ∧ (m.answer call).2.Keeps (r.answer call).2 := by
  cases call with
  | lock readOnly => exact ⟨rfl, ⟨keeps.indexed.filed, keeps.indexed.backed⟩, rfl,
      keeps.distinct, keeps.records⟩
  | write write =>
    simp only [Memory.answer, Register.answer, ← keeps.readOnly]
    cases locked : m.readOnly with
    | true =>
      rw [perform_locked locked]
      exact ⟨rfl, keeps⟩
    | false =>
      rw [perform_unlocked locked]
      cases write with
      | save snapshot operations edges => exact keeps.save distinct
      | status | hold | statusAndHold => exact keeps.update fun _ => rfl
      | delete => exact keeps.delete

/-- Calls one after the other have the same answers from both. -/
theorem Keeps.calls {calls : List StoreCall} (keeps : m.Keeps r)
    (distinct : ∀ call ∈ calls, call.Distinct) :
    (answerAll Memory.answer m calls).1 = (answerAll Register.answer r calls).1 ∧
      (answerAll Memory.answer m calls).2.Keeps (answerAll Register.answer r calls).2 := by
  induction calls generalizing m r with
  | nil => exact ⟨rfl, keeps⟩
  | cons call rest ih =>
    obtain ⟨result, next⟩ := keeps.answer (distinct call List.mem_cons_self)
    obtain ⟨results, last⟩ := ih next fun later member =>
      distinct later (List.mem_cons_of_mem _ member)
    exact ⟨congrArg₂ List.cons result results, last⟩

end Memory

/-- Whatever is saved, changed and deleted, and whenever writing is disabled: a memory answers every
call as the register does, errors included, and in the end, as after each of the calls, finds the
same records, counts as many and returns the same batches under any names. What its index knows has
exactly one record, and nothing else has any. -/
theorem memory_as_register (calls : List StoreCall) (distinct : ∀ call ∈ calls, call.Distinct) :
    let memory := answerAll Memory.answer .empty calls
    let register := answerAll Register.answer .empty calls
    memory.1 = register.1 ∧
    (∀ id, memory.2.get? id = register.2.get? id) ∧
    memory.2.size = register.2.rows.length ∧
    (∀ names, memory.2.restore names = register.2.restore names) ∧
    (∀ id, id ∈ memory.2.snapshotOf ↔ id ∈ register.2.ids) ∧
    ∀ id, (memory.2.batches.flatMap (·.operations)).countP (·.id = id) =
      if id ∈ memory.2.snapshotOf then 1 else 0 := by
  intro memory register
  obtain ⟨answers, keeps⟩ := Memory.keeps_empty.calls distinct
  exact ⟨answers, keeps.get?_eq, keeps.size_eq, keeps.restore_eq, fun id => keeps.known_iff,
    keeps.countP_records⟩

/-- A record moves to another snapshot, where an edge starts at it, and the one that it leaves runs
empty; two calls are refused, and one record is of another pipeline. -/
def uploadMoved : List StoreCall := [
  .write (.save 2 [.new (.ofNat 1), .new (.ofNat 2)] [⟨.ofNat 1, .ofNat 2⟩]),
  .write (.save 3 [{ Operation.new (.ofNat 3) with pipeline := "imports" }] []),
  .write (.save 1 [.new (.ofNat 4), .new (.ofNat 1)] [⟨.ofNat 2, .ofNat 4⟩, ⟨.ofNat 1, .ofNat 9⟩]),
  .write (.hold (.ofNat 5) none),
  .lock true,
  .write (.delete (.ofNat 2)),
  .lock false,
  .write (.delete (.ofNat 2))]

theorem uploadMoved_as_register :
    let memory := answerAll Memory.answer .empty uploadMoved
    memory.1 = [.ok (), .ok (), .ok (), .error (.unknownOperation (.ofNat 5)), .ok (),
      .error (.storage .readOnly), .ok (), .ok ()] ∧
    memory.2.size = 3 ∧
    (memory.2.restore (.new "" [])).map (fun batch =>
      (batch.snapshot, batch.operations.map fun op => (op.id, op.dependencies.toList))) =
        [(1, [(.ofNat 4, []), (.ofNat 1, [.ofNat 9])])] := by
  have distinct : ∀ call ∈ uploadMoved, call.Distinct := by
    simp only [uploadMoved, List.forall_mem_cons, List.not_mem_nil, false_imp_iff, implies_true,
      StoreCall.Distinct]
    decide
  obtain ⟨answers, -, size, restored, -⟩ := memory_as_register uploadMoved distinct
  intro memory
  refine ⟨answers.trans ?_, size.trans ?_, ?_⟩
  · decide +kernel
  · decide +kernel
  · rw [restored]
    decide +kernel

end CommitPipeline
