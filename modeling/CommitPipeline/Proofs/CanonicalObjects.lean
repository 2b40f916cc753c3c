import CommitPipeline.Json.Written

/-! Objects with their names in ascending order, each once. Fields that are in this order are an
object as they stand, and every object that is made of fields is in it. -/
namespace CommitPipeline.Json

/-- The names of fields in ascending order without repetitions. -/
def Ascending (fields : List (String × Json)) : Prop :=
  (fields.map (·.1)).Pairwise fun a b => compare a b = .lt

section
variable {name : String} {value : Json} {fields rest : List (String × Json)}

/-- A name above all others goes to the end. -/
theorem insertField_above (above : ∀ other ∈ fields.map (·.1), compare other name = .lt) :
    insertField name value fields = fields ++ [(name, value)] := by
  induction fields with
  | nil => rfl
  | cons field fields ih =>
    obtain ⟨other, kept⟩ := field
    have first : compare name other = .gt := by
      rw [Std.OrientedCmp.gt_iff_lt]
      exact above other (by simp)
    have later := ih fun other mem => above other (List.mem_cons_of_mem _ mem)
    simp [insertField, first, later]

theorem mem_insertField {other : String × Json} (mem : other ∈ insertField name value fields) :
    other = (name, value) ∨ other ∈ fields := by
  induction fields with
  | nil => simpa [insertField] using mem
  | cons field fields ih =>
    obtain ⟨first, kept⟩ := field
    unfold insertField at mem
    split at mem
    · simpa using mem
    · simp only [List.mem_cons] at mem ⊢
      exact mem.imp_right .inr
    · simp only [List.mem_cons] at mem ⊢
      rcases mem with rfl | mem
      · exact .inr (.inl rfl)
      · exact (ih mem).imp_right .inr

theorem ascending_cons {field : String × Json} : Ascending (field :: fields) ↔
    (∀ other ∈ fields.map (·.1), compare field.1 other = .lt) ∧ Ascending fields :=
  List.pairwise_cons

theorem Ascending.insertField (ascending : Ascending fields) (name : String) (value : Json) :
    Ascending (insertField name value fields) := by
  induction fields with
  | nil => simp [Json.insertField, Ascending]
  | cons field fields ih =>
    obtain ⟨first, kept⟩ := field
    obtain ⟨below, later⟩ := ascending_cons.1 ascending
    unfold Json.insertField
    split
    · next less =>
      refine ascending_cons.2 ⟨fun other mem => ?_, ascending⟩
      rcases List.mem_cons.1 mem with rfl | mem
      · exact less
      · exact Std.TransCmp.lt_trans less (below other mem)
    · next same =>
      rw [Std.LawfulEqCmp.eq_of_compare same]
      exact ascending_cons.2 ⟨below, later⟩
    · next greater =>
      refine ascending_cons.2 ⟨fun other mem => ?_, ih later⟩
      obtain ⟨field, inside, rfl⟩ := List.mem_map.1 mem
      rcases mem_insertField inside with rfl | inside
      · exact Std.OrientedCmp.gt_iff_lt.1 greater
      · exact below field.1 (List.mem_map_of_mem inside)

/-- Fields that follow in the order are put behind the others one by one. -/
theorem foldl_insertField (ascending : Ascending (fields ++ rest)) :
    rest.foldl (fun sorted (name, value) => Json.insertField name value sorted) fields
      = fields ++ rest := by
  induction rest generalizing fields with
  | nil => simp
  | cons field rest ih =>
    have order : (fields.map (·.1) ++ field.1 :: rest.map (·.1)).Pairwise
        fun a b => compare a b = .lt := by
      simpa [Ascending] using ascending
    have above : ∀ other ∈ fields.map (·.1), compare other field.1 = .lt := fun other mem =>
      (List.pairwise_append.1 order).2.2 other mem field.1 (by simp)
    have grown : Ascending ((fields ++ [field]) ++ rest) := by simpa using ascending
    simp only [List.foldl_cons, insertField_above above, ih grown, List.append_assoc,
      List.singleton_append]

theorem ofFields_eq (ascending : Ascending fields) : ofFields fields = .object fields := by
  rw [ofFields, foldl_insertField (by simpa using ascending), List.nil_append]

/-- Fields that are put in one by one leave an object in order, with no others than the given. -/
theorem foldl_insertField_kept {kept : List (String × Json)} (ascending : Ascending kept) :
    Ascending (fields.foldl (fun sorted (name, value) => Json.insertField name value sorted) kept) ∧
      fields.foldl (fun sorted (name, value) => Json.insertField name value sorted) kept
        ⊆ fields ++ kept := by
  induction fields generalizing kept with
  | nil => exact ⟨ascending, fun _ mem => mem⟩
  | cons field fields ih =>
    obtain ⟨inOrder, within⟩ := ih (ascending.insertField field.1 field.2)
    refine ⟨inOrder, fun other mem => ?_⟩
    rcases List.mem_append.1 (within mem) with later | mem
    · exact List.mem_append_left _ (List.mem_cons_of_mem _ later)
    · rcases mem_insertField mem with rfl | before
      · exact List.mem_append_left _ List.mem_cons_self
      · exact List.mem_append_right _ before

/-- What fields are made into: some of them in ascending order. -/
theorem exists_ofFields (fields : List (String × Json)) :
    ∃ sorted, ofFields fields = .object sorted ∧ Ascending sorted ∧ sorted ⊆ fields := by
  have made := @foldl_insertField_kept fields [] .nil
  rw [List.append_nil] at made
  exact ⟨_, rfl, made⟩

theorem ascending_ofFields {sorted : List (String × Json)}
    (made : ofFields fields = .object sorted) : Ascending sorted := by
  obtain ⟨found, same, ascending, -⟩ := exists_ofFields fields
  rw [made] at same
  cases same
  exact ascending

end

end CommitPipeline.Json
