import CommitPipeline.Proofs.Lookup
import CommitPipeline.Store.Memory

/-! What a memory holds. A memory keeps a list of records for each snapshot and an index from
identifiers to snapshots; every write keeps the two in step. Under that invariant a write is
described by what it does to the records of a snapshot, and whether it succeeds by the identifiers
of the index alone. -/
namespace CommitPipeline

namespace Memory
variable {m : Memory} {id other : OperationId} {snapshot place : Nat} {op : Operation}
  {change : Operation → Operation} {operations : List Operation} {ids : List OperationId}

/-- The records of a snapshot in their order. -/
def recordsAt (m : Memory) (snapshot : Nat) : List Operation := m.graphs[snapshot]?.getD []

/-- Each record stands under the snapshot that the index gives for it. -/
def Filed (m : Memory) : Prop :=
  ∀ snapshot : Nat, ∀ op ∈ m.recordsAt snapshot, m.snapshotOf[op.id]? = some snapshot

/-- Records and index are in step. -/
structure Indexed (m : Memory) : Prop where
  filed : m.Filed
  backed : ∀ (id : OperationId) (snapshot : Nat), m.snapshotOf[id]? = some snapshot →
    ∃ op ∈ m.recordsAt snapshot, op.id = id

theorem indexed_empty : Indexed empty where
  filed snapshot op member := by simp [recordsAt, empty] at member
  backed id snapshot known := by simp [empty] at known

/-- All records of an identifier stand under one snapshot. -/
theorem Filed.absent (filed : m.Filed) (elsewhere : m.snapshotOf[id]? ≠ some place) :
    ∀ op ∈ m.recordsAt place, op.id ≠ id := by
  intro op member same
  exact elsewhere (same ▸ filed place op member)

theorem get?_eq (m : Memory) (id : OperationId) : m.get? id =
    m.snapshotOf[id]?.bind fun snapshot => (m.recordsAt snapshot).find? (·.id = id) := by
  rw [get?]
  refine Option.bind_congr fun snapshot _ => ?_
  rw [recordsAt]
  cases m.graphs[snapshot]? <;> rfl

/-- A record is found if no other one under its snapshot has its identifier. -/
theorem get?_of_mem (indexed : m.Indexed) (member : op ∈ m.recordsAt snapshot)
    (single : ∀ other ∈ m.recordsAt snapshot, other.id = op.id → other = op) :
    m.get? op.id = some op := by
  rw [get?_eq, indexed.filed snapshot op member, Option.bind_some]
  cases found : (m.recordsAt snapshot).find? (·.id = op.id) with
  | none => simpa using List.find?_eq_none.mp found op member
  | some other =>
    have named : other.id = op.id := by simpa using List.find?_some found
    rw [single other (List.mem_of_find?_eq_some found) named]

theorem mem_of_get? (found : m.get? id = some op) :
    op.id = id ∧ ∃ snapshot, op ∈ m.recordsAt snapshot := by
  rw [get?_eq] at found
  obtain ⟨snapshot, -, found⟩ := Option.bind_eq_some_iff.mp found
  exact ⟨by simpa using List.find?_some found, snapshot, List.mem_of_find?_eq_some found⟩

theorem known_of_get? (found : m.get? id = some op) : id ∈ m.snapshotOf := by
  rw [get?_eq] at found
  obtain ⟨snapshot, known, -⟩ := Option.bind_eq_some_iff.mp found
  rw [Std.ExtTreeMap.mem_iff_isSome_getElem?, known]
  rfl

/-- What the index knows has a record. -/
theorem Indexed.isSome_get? (indexed : m.Indexed) (known : m.snapshotOf[id]? = some snapshot) :
    (m.get? id).isSome = true := by
  obtain ⟨op, member, named⟩ := indexed.backed id snapshot known
  rw [get?_eq, known, Option.bind_some, List.find?_isSome]
  exact ⟨op, member, by simpa using named⟩

/-! ### Changing a record -/

theorem changeFirst_of_absent (absent : ∀ op ∈ operations, op.id ≠ id) :
    changeFirst id change operations = operations := by
  induction operations with
  | nil => rfl
  | cons first rest ih =>
    rw [changeFirst, if_neg (absent first List.mem_cons_self),
      ih fun op member => absent op (List.mem_cons_of_mem _ member)]

/-- What the change of a record leaves alone is seen on all records as before. -/
theorem map_changeFirst {β : Type} {view : Operation → β} (kept : ∀ op, view (change op) = view op) :
    (changeFirst id change operations).map view = operations.map view := by
  induction operations with
  | nil => rfl
  | cons first rest ih =>
    rw [changeFirst]
    split
    · rw [List.map_cons, kept, List.map_cons]
    · rw [List.map_cons, ih, List.map_cons]

/-- A choice of records by identifier may come before or after a change of one that is chosen. -/
theorem filter_changeFirst (kept : ∀ op, (change op).id = op.id) (chosen : OperationId → Bool)
    (isChosen : chosen id = true) :
    (changeFirst id change operations).filter (fun op => chosen op.id) =
      changeFirst id change (operations.filter fun op => chosen op.id) := by
  induction operations with
  | nil => rfl
  | cons first rest ih =>
    by_cases here : first.id = id
    · have chosenFirst : chosen first.id = true := here ▸ isChosen
      have chosenLater : chosen (change first).id = true := (kept first).symm ▸ chosenFirst
      rw [changeFirst, if_pos here, List.filter_cons, List.filter_cons, if_pos chosenLater,
        if_pos chosenFirst, changeFirst, if_pos here]
    · rw [changeFirst, if_neg here, List.filter_cons, List.filter_cons, ih]
      split
      · rw [changeFirst, if_neg here]
      · rfl

/-- Where a record is left out it does not matter that it was changed. -/
theorem filter_changeFirst_other (kept : ∀ op, (change op).id = op.id)
    (chosen : OperationId → Bool) (isOther : chosen id = false) :
    (changeFirst id change operations).filter (fun op => chosen op.id) =
      operations.filter fun op => chosen op.id := by
  induction operations with
  | nil => rfl
  | cons first rest ih =>
    rw [changeFirst]
    split
    · rename_i here
      have leftOut : chosen first.id = false := here ▸ isOther
      simp only [List.filter_cons, kept, leftOut, Bool.false_eq_true, if_false]
    · simp only [List.filter_cons, ih]

theorem mem_changeFirst (member : op ∈ changeFirst id change operations) :
    op ∈ operations ∨ ∃ old ∈ operations, old.id = id ∧ op = change old := by
  induction operations with
  | nil => cases member
  | cons first rest ih =>
    rw [changeFirst] at member
    split at member
    · rename_i here
      rcases List.mem_cons.mp member with rfl | later
      · exact .inr ⟨first, List.mem_cons_self, here, rfl⟩
      · exact .inl (List.mem_cons_of_mem _ later)
    · rcases List.mem_cons.mp member with rfl | later
      · exact .inl List.mem_cons_self
      · rcases ih later with old | ⟨old, found, rest⟩
        · exact .inl (List.mem_cons_of_mem _ old)
        · exact .inr ⟨old, List.mem_cons_of_mem _ found, rest⟩

theorem update_unknown (unknown : m.snapshotOf[id]? = none) :
    m.update id change = (.error (.unknownOperation id), m) := by
  rw [update, unknown]

theorem update_known (indexed : m.Indexed) (known : m.snapshotOf[id]? = some snapshot) :
    m.update id change =
      (.ok (), { m with graphs := m.graphs.modify snapshot (changeFirst id change) }) := by
  simp only [update, known, indexed.isSome_get? known, ↓reduceIte]

theorem snapshotOf_update (m : Memory) (id : OperationId) (change : Operation → Operation) :
    (m.update id change).2.snapshotOf = m.snapshotOf := by
  unfold update
  split
  · rfl
  · split <;> rfl

theorem readOnly_update (m : Memory) (id : OperationId) (change : Operation → Operation) :
    (m.update id change).2.readOnly = m.readOnly := by
  unfold update
  split
  · rfl
  · split <;> rfl

/-- Since other snapshots have no record of the identifier, the change may be taken to go through
all of them. -/
theorem recordsAt_update (indexed : m.Indexed) :
    (m.update id change).2.recordsAt place = changeFirst id change (m.recordsAt place) := by
  cases known : m.snapshotOf[id]? with
  | none =>
    rw [update_unknown known, changeFirst_of_absent (indexed.filed.absent (by simp [known]))]
  | some snapshot =>
    rw [update_known indexed known, recordsAt, Std.ExtTreeMap.getElem?_modify]
    by_cases here : snapshot = place
    · subst here
      simp only [Std.compare_self, ↓reduceIte, recordsAt]
      cases m.graphs[snapshot]? <;> rfl
    · rw [if_neg (by simpa using here)]
      exact (changeFirst_of_absent (indexed.filed.absent (by simpa [known] using here))).symm

theorem Indexed.update (indexed : m.Indexed) (kept : ∀ op, (change op).id = op.id) :
    (m.update id change).2.Indexed where
  filed place op member := by
    rw [snapshotOf_update]
    rw [recordsAt_update indexed] at member
    rcases mem_changeFirst member with old | ⟨old, found, -, rfl⟩
    · exact indexed.filed place op old
    · rw [kept]
      exact indexed.filed place old found
  backed other place known := by
    rw [snapshotOf_update] at known
    obtain ⟨op, member, named⟩ := indexed.backed other place known
    have listed : other ∈ ((m.update id change).2.recordsAt place).map (·.id) := by
      rw [recordsAt_update indexed, map_changeFirst kept, ← named]
      exact List.mem_map_of_mem member
    exact List.mem_map.mp listed

theorem update_answer (indexed : m.Indexed) (id : OperationId)
    (change : Operation → Operation) : (m.update id change).1 =
      if m.snapshotOf.contains id then .ok () else .error (.unknownOperation id) := by
  rw [Std.ExtTreeMap.contains_eq_isSome_getElem?]
  cases known : m.snapshotOf[id]? with
  | none =>
    rw [update_unknown known]
    rfl
  | some snapshot =>
    rw [update_known indexed known]
    rfl

theorem find?_changeFirst (kept : ∀ op, (change op).id = op.id) (operations : List Operation) :
    (changeFirst id change operations).find? (·.id = other) =
      if id = other then (operations.find? (·.id = other)).map change
      else operations.find? (·.id = other) := by
  induction operations with
  | nil => simp [changeFirst]
  | cons first rest ih =>
    rw [changeFirst]
    by_cases here : first.id = id
    · by_cases same : id = other
      · simp [here, kept, same]
      · simp [here, kept, same]
    · rw [if_neg here, List.find?_cons, List.find?_cons, ih]
      by_cases found : first.id = other
      · have different : id ≠ other := fun same => here (found.trans same.symm)
        simp [found, different]
      · simp [found]

theorem get?_update (indexed : m.Indexed) (kept : ∀ op, (change op).id = op.id) :
    (m.update id change).2.get? other =
      if id = other then (m.get? other).map change else m.get? other := by
  rw [get?_eq, get?_eq, snapshotOf_update]
  simp only [recordsAt_update indexed, find?_changeFirst kept]
  cases m.snapshotOf[other]? with
  | none => simp
  | some snapshot => rfl

/-! ### Deleting a record -/

theorem lookup_delete :
    (m.delete id).2.snapshotOf[other]? = if id = other then none else m.snapshotOf[other]? := by
  unfold delete
  split
  · rename_i unknown
    by_cases same : id = other
    · rw [if_pos same, ← same, unknown]
    · rw [if_neg same]
  · simp [Std.ExtTreeMap.getElem?_erase]

theorem recordsAt_delete (indexed : m.Indexed) :
    (m.delete id).2.recordsAt place = (m.recordsAt place).filter (·.id ≠ id) := by
  have untouched (elsewhere : m.snapshotOf[id]? ≠ some place) :
      (m.recordsAt place).filter (·.id ≠ id) = m.recordsAt place :=
    List.filter_eq_self.mpr fun op member => by
      simpa using indexed.filed.absent elsewhere op member
  unfold delete
  split
  · rename_i unknown
    rw [untouched (by simp [unknown])]
  · rename_i snapshot known
    rw [recordsAt, Std.ExtTreeMap.getElem?_alter]
    by_cases here : snapshot = place
    · subst here
      simp only [Std.compare_self, ↓reduceIte, recordsAt]
      split
      · rename_i none_left
        rw [none_left]
        rfl
      · rfl
    · rw [if_neg (by simpa using here), untouched (by simpa [known] using here), recordsAt]

theorem delete_answer (m : Memory) (id : OperationId) : (m.delete id).1 =
    if m.snapshotOf.contains id then .ok () else .error (.unknownOperation id) := by
  rw [Std.ExtTreeMap.contains_eq_isSome_getElem?, delete]
  split
  · rename_i unknown
    rw [unknown]
    rfl
  · rename_i known
    rw [known]
    rfl

theorem readOnly_delete (m : Memory) (id : OperationId) :
    (m.delete id).2.readOnly = m.readOnly := by
  unfold delete
  split <;> rfl

theorem Indexed.delete (indexed : m.Indexed) : (m.delete id).2.Indexed where
  filed place op member := by
    rw [recordsAt_delete indexed] at member
    obtain ⟨member, different⟩ := List.mem_filter.mp member
    rw [lookup_delete, if_neg fun same => by simp [same] at different]
    exact indexed.filed place op member
  backed other place known := by
    rw [lookup_delete] at known
    split at known
    · cases known
    · rename_i different
      obtain ⟨op, member, rfl⟩ := indexed.backed other place known
      refine ⟨op, ?_, rfl⟩
      rw [recordsAt_delete indexed]
      exact List.mem_filter.mpr ⟨member, decide_eq_true (Ne.symm different)⟩

theorem get?_delete (indexed : m.Indexed) :
    (m.delete id).2.get? other = if id = other then none else m.get? other := by
  rw [get?_eq, get?_eq, lookup_delete]
  by_cases same : id = other
  · simp [same]
  · rw [if_neg same, if_neg same]
    refine Option.bind_congr fun snapshot _ => ?_
    rw [recordsAt_delete indexed, List.find?_filter]
    congr 1
    funext op
    by_cases named : op.id = other
    · simp [named, Ne.symm same]
    · simp [named]

/-! ### Storing a batch -/

theorem lookup_refile : (refile snapshot m id).snapshotOf[other]? =
    if id = other then some snapshot else m.snapshotOf[other]? := by
  simp [refile, Std.ExtTreeMap.getElem?_insert]

theorem recordsAt_refile (filed : m.Filed) :
    (refile snapshot m id).recordsAt place = (m.recordsAt place).filter (·.id ≠ id) := by
  have untouched (elsewhere : m.snapshotOf[id]? ≠ some place) :
      (m.recordsAt place).filter (·.id ≠ id) = m.recordsAt place :=
    List.filter_eq_self.mpr fun op member => by simpa using filed.absent elsewhere op member
  cases known : m.snapshotOf[id]? with
  | none =>
    rw [untouched (by simp [known])]
    simp only [refile, known, recordsAt]
  | some former =>
    simp only [refile, known, recordsAt]
    rw [Std.ExtTreeMap.getElem?_modify]
    by_cases here : former = place
    · subst here
      simp only [Std.compare_self, ↓reduceIte]
      cases m.graphs[former]? <;> rfl
    · rw [if_neg (by simpa using here)]
      exact (untouched (by simpa [known] using here)).symm

theorem Filed.refile (filed : m.Filed) : (refile snapshot m id).Filed := by
  intro place op member
  rw [recordsAt_refile filed] at member
  obtain ⟨member, different⟩ := List.mem_filter.mp member
  rw [lookup_refile, if_neg fun same => by simp [same] at different]
  exact filed place op member

theorem lookup_refileAll : (ids.foldl (refile snapshot) m).snapshotOf[other]? =
    if other ∈ ids then some snapshot else m.snapshotOf[other]? := by
  induction ids generalizing m with
  | nil => rfl
  | cons id rest ih =>
    rw [List.foldl_cons, ih, lookup_refile]
    by_cases later : other ∈ rest
    · simp [later]
    · by_cases here : id = other
      · simp [here]
      · simp [later, here, Ne.symm here]

theorem recordsAt_refileAll (filed : m.Filed) (snapshot : Nat) (ids : List OperationId) :
    (ids.foldl (refile snapshot) m).recordsAt place =
      (m.recordsAt place).filter (·.id ∉ ids) := by
  induction ids generalizing m with
  | nil => exact (List.filter_eq_self.mpr fun op _ => by simp).symm
  | cons id rest ih =>
    rw [List.foldl_cons, ih filed.refile, recordsAt_refile filed, List.filter_filter]
    refine List.filter_congr fun op _ => ?_
    simp only [List.mem_cons, not_or, Bool.decide_and, Bool.and_comm]

theorem readOnly_refileAll : (ids.foldl (refile snapshot) m).readOnly = m.readOnly := by
  induction ids generalizing m with
  | nil => rfl
  | cons id rest ih =>
    rw [List.foldl_cons, ih]
    rfl

/-- The memory with a batch in it, before the edges are added. -/
def store (m : Memory) (snapshot : Nat) (operations : List Operation) : Memory :=
  let filed := (operations.map (·.id)).foldl (refile snapshot) m
  { filed with
    graphs := (filed.graphs.filter fun _ kept => !kept.isEmpty).alter snapshot fun kept =>
      some (kept.getD [] ++ operations) }

theorem lookup_store : (m.store snapshot operations).snapshotOf[other]? =
    if other ∈ operations.map (·.id) then some snapshot else m.snapshotOf[other]? :=
  lookup_refileAll

theorem recordsAt_store (filed : m.Filed) : (m.store snapshot operations).recordsAt place =
    (m.recordsAt place).filter (·.id ∉ operations.map (·.id)) ++
      if snapshot = place then operations else [] := by
  have emptied (kept : Option (List Operation)) :
      (kept.filter fun kept => !kept.isEmpty).getD [] = kept.getD [] := by
    cases kept with
    | none => rfl
    | some kept => cases kept <;> rfl
  rw [← recordsAt_refileAll filed snapshot, store, recordsAt,
    Std.ExtTreeMap.getElem?_alter]
  by_cases here : snapshot = place
  · subst here
    simp only [Std.compare_self, ↓reduceIte, Option.getD_some, Std.ExtTreeMap.getElem?_filter',
      emptied, recordsAt]
  · rw [if_neg (by simpa using here), Std.ExtTreeMap.getElem?_filter', emptied, if_neg here,
      List.append_nil, recordsAt]

theorem Indexed.store (indexed : m.Indexed) : (m.store snapshot operations).Indexed where
  filed place op member := by
    rw [recordsAt_store indexed.filed] at member
    rw [lookup_store]
    rcases List.mem_append.mp member with old | new
    · obtain ⟨old, absent⟩ := List.mem_filter.mp old
      rw [if_neg (by simpa using absent)]
      exact indexed.filed place op old
    · split at new
      · rename_i here
        rw [if_pos (List.mem_map_of_mem new), here]
      · cases new
  backed other place known := by
    rw [lookup_store] at known
    rw [recordsAt_store indexed.filed]
    split at known
    · rename_i listed
      obtain ⟨op, member, named⟩ := List.mem_map.mp listed
      refine ⟨op, List.mem_append_right _ ?_, named⟩
      rwa [if_pos (Option.some.inj known)]
    · rename_i absent
      obtain ⟨op, member, named⟩ := indexed.backed other place known
      refine ⟨op, List.mem_append_left _ (List.mem_filter.mpr ⟨member, ?_⟩), named⟩
      simpa [named] using absent

/-- An edge that starts at a known identifier is added, and the others after it. -/
theorem addEdges_cons {edge : Edge} {rest : List Edge} (indexed : m.Indexed)
    (known : edge.operation ∈ m.snapshotOf) : m.addEdges (edge :: rest) =
      (m.update edge.operation (·.dependingOn edge.dependsOn)).2.addEdges rest := by
  have answer := update_answer indexed edge.operation (·.dependingOn edge.dependsOn)
  rw [if_pos (Std.ExtTreeMap.contains_iff_mem.mpr known)] at answer
  rw [addEdges]
  cases ran : m.update edge.operation (·.dependingOn edge.dependsOn) with
  | mk result after =>
    rw [ran] at answer
    cases answer
    rfl

theorem Indexed.dependingOn (indexed : m.Indexed) (edge : Edge) :
    (m.update edge.operation (·.dependingOn edge.dependsOn)).2.Indexed :=
  indexed.update fun _ => rfl

/-- What an edge that has been added leaves to the ones after it. -/
theorem known_updated {edge : Edge} {rest : List Edge}
    (known : ∀ other ∈ edge :: rest, other.operation ∈ m.snapshotOf) :
    ∀ other ∈ rest, other.operation ∈
      (m.update edge.operation (·.dependingOn edge.dependsOn)).2.snapshotOf := by
  intro other later
  rw [snapshotOf_update]
  exact known other (List.mem_cons_of_mem _ later)

/-- Edges that start at known identifiers are all added, one after the other. -/
theorem addEdges_known {edges : List Edge} (indexed : m.Indexed)
    (known : ∀ edge ∈ edges, edge.operation ∈ m.snapshotOf) :
    (m.addEdges edges).1 = .ok () ∧ (m.addEdges edges).2.Indexed ∧
      (m.addEdges edges).2.snapshotOf = m.snapshotOf ∧
      (m.addEdges edges).2.readOnly = m.readOnly := by
  induction edges generalizing m with
  | nil => exact ⟨rfl, indexed, rfl, rfl⟩
  | cons edge rest ih =>
    rw [addEdges_cons indexed (known edge List.mem_cons_self)]
    obtain ⟨succeeded, indexedAfter, kept, flag⟩ :=
      ih (indexed.dependingOn edge) (known_updated known)
    exact ⟨succeeded, indexedAfter, kept.trans (snapshotOf_update ..),
      flag.trans (readOnly_update ..)⟩

/-- The first edge that starts neither in a batch nor in the memory. -/
def strayEdge? (m : Memory) (ids : List OperationId) (edges : List Edge) : Option Edge :=
  edges.find? fun edge => !ids.contains edge.operation && !m.snapshotOf.contains edge.operation

theorem save_stray {edges : List Edge} {edge : Edge}
    (stray : m.strayEdge? (operations.map (·.id)) edges = some edge) :
    m.save snapshot operations edges = (.error (.unknownOperation edge.operation), m) := by
  rw [strayEdge?] at stray
  simp only [save, stray]

theorem save_fitting {edges : List Edge}
    (fitting : m.strayEdge? (operations.map (·.id)) edges = none) :
    m.save snapshot operations edges = (m.store snapshot operations).addEdges edges := by
  rw [strayEdge?] at fitting
  simp only [save, fitting]
  rfl

theorem known_store {edges : List Edge} (snapshot : Nat)
    (fitting : m.strayEdge? (operations.map (·.id)) edges = none) :
    ∀ edge ∈ edges, edge.operation ∈ (m.store snapshot operations).snapshotOf := by
  intro edge member
  have fits := List.find?_eq_none.mp fitting edge member
  rw [Std.ExtTreeMap.mem_iff_isSome_getElem?, lookup_store]
  split
  · rfl
  · rename_i outside
    simpa [outside] using fits

/-- A save either finds an edge that starts nowhere, and changes nothing, or succeeds. -/
theorem save_cases (indexed : m.Indexed) (snapshot : Nat) (operations : List Operation)
    (edges : List Edge) :
    (∃ edge, m.strayEdge? (operations.map (·.id)) edges = some edge ∧
      m.save snapshot operations edges = (.error (.unknownOperation edge.operation), m)) ∨
    (m.strayEdge? (operations.map (·.id)) edges = none ∧
      (m.save snapshot operations edges).1 = .ok () ∧
      (m.save snapshot operations edges).2.Indexed ∧
      (m.save snapshot operations edges).2.snapshotOf =
        (m.store snapshot operations).snapshotOf ∧
      (m.save snapshot operations edges).2.readOnly = m.readOnly) := by
  cases stray : m.strayEdge? (operations.map (·.id)) edges with
  | some edge => exact .inl ⟨edge, rfl, save_stray stray⟩
  | none =>
    rw [save_fitting stray]
    obtain ⟨succeeded, indexedAfter, kept, flag⟩ :=
      addEdges_known indexed.store (known_store snapshot stray)
    exact .inr ⟨rfl, succeeded, indexedAfter, kept, flag.trans readOnly_refileAll⟩

/-! ### Every write -/

theorem unlocked_of_ok {write : Write} (done : (m.perform write).1 = .ok ()) :
    m.readOnly = false := by
  unfold Memory.perform at done
  split at done
  · cases done
  · rename_i unlocked
    exact Bool.eq_false_iff.mpr unlocked

theorem perform_locked (locked : m.readOnly = true) (write : Write) :
    m.perform write = (.error (.storage .readOnly), m) := by
  unfold Memory.perform
  rw [if_pos locked]

/-- What an unlocked memory makes of a write. -/
theorem perform_unlocked (unlocked : m.readOnly = false) (write : Write) :
    m.perform write = match write with
      | .save snapshot operations edges => m.save snapshot operations edges
      | .status id status => m.update id ({ · with status })
      | .hold id hold => m.update id ({ · with hold })
      | .statusAndHold id status hold => m.update id ({ · with status, hold })
      | .delete id => m.delete id := by
  have writable : ¬ m.readOnly = true := by
    rw [unlocked]
    exact Bool.false_ne_true
  unfold Memory.perform
  refine (if_neg writable).trans ?_
  cases write <;> rfl

/-- What a memory made of a write that it accepted. -/
theorem perform_accepted {next : Memory} {write : Write}
    (done : m.perform write = (.ok (), next)) : (match write with
      | .save snapshot operations edges => m.save snapshot operations edges
      | .status id status => m.update id ({ · with status })
      | .hold id hold => m.update id ({ · with hold })
      | .statusAndHold id status hold => m.update id ({ · with status, hold })
      | .delete id => m.delete id) = (.ok (), next) :=
  (perform_unlocked (unlocked_of_ok (congrArg Prod.fst done)) write).symm.trans done

theorem Indexed.perform (indexed : m.Indexed) (write : Write) : (m.perform write).2.Indexed := by
  cases locked : m.readOnly with
  | true =>
    rw [perform_locked locked]
    exact indexed
  | false =>
    rw [perform_unlocked locked]
    cases write with
    | save snapshot operations edges =>
      change (m.save snapshot operations edges).2.Indexed
      rcases save_cases indexed snapshot operations edges with ⟨_, -, rejected⟩ | ⟨-, -, saved, -⟩
      · rw [rejected]
        exact indexed
      · exact saved
    | status | hold | statusAndHold => exact indexed.update fun _ => rfl
    | delete => exact indexed.delete

/-- A memory that rejects a write is as it was. -/
theorem perform_rejected (indexed : m.Indexed) {write : Write} {error : Error}
    (rejected : (m.perform write).1 = .error error) : (m.perform write).2 = m := by
  have unknown_update {id : OperationId} {change : Operation → Operation}
      (failed : (m.update id change).1 = .error error) : (m.update id change).2 = m := by
    cases known : m.snapshotOf[id]? with
    | none => rw [update_unknown known]
    | some snapshot =>
      rw [update_known indexed known] at failed
      cases failed
  cases locked : m.readOnly with
  | true => rw [perform_locked locked]
  | false =>
    rw [perform_unlocked locked] at rejected ⊢
    cases write with
    | save snapshot operations edges =>
      change (m.save snapshot operations edges).2 = m
      rcases save_cases indexed snapshot operations edges with ⟨_, -, stray⟩ | ⟨-, saved, -⟩
      · rw [stray]
      · cases saved.symm.trans rejected
    | status | hold | statusAndHold => exact unknown_update rejected
    | delete id =>
      change (m.delete id).2 = m
      have answer : (m.delete id).1 = .error error := rejected
      unfold Memory.delete at answer ⊢
      split at answer
      · rfl
      · cases answer

/-- The memories that writes can lead to, whoever makes them. Writing may be disabled and enabled
in between. -/
inductive Reachable : Memory → Prop where
  | empty : Reachable .empty
  | write {m : Memory} (reached : Reachable m) (write : Write) : Reachable (m.perform write).2
  | lock {m : Memory} (reached : Reachable m) (readOnly : Bool) : Reachable { m with readOnly }

theorem Reachable.indexed (reached : m.Reachable) : m.Indexed := by
  induction reached with
  | empty => exact indexed_empty
  | write reached write ih => exact ih.perform write
  | lock reached readOnly ih => exact ⟨ih.filed, ih.backed⟩

end Memory
end CommitPipeline
