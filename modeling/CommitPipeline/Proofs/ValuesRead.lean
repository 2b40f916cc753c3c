import CommitPipeline.Proofs.ReadBack

/-! What is known of a value that was read: its brackets nest no deeper than was allowed, its
objects are in order, and its integers have 64 bits. Only its doubles are left, so it is read back
from its own text if and only if each of them is. -/
namespace CommitPipeline.Json

/-! ### Numbers of a text -/

theorem Numeral.accumulate_le {bound total : Nat} {digits : List Nat} (within : total ≤ bound) :
    (accumulate bound total digits).1 ≤ bound := by
  induction digits generalizing total with
  | nil => exact within
  | cons d digits ih =>
    unfold accumulate
    split
    · next more => exact ih more
    · exact within

/-- Integers that a numeral stands for have 64 bits. -/
theorem Numeral.value?_int {numeral : Numeral} {n : Int} (value : numeral.value? = some (.int n)) :
    -2 ^ 63 ≤ n ∧ n < 2 ^ 64 := by
  have small : (accumulate maxSignificand (accumulate maxSignificand 0 numeral.whole).1
      numeral.fraction).1 ≤ maxSignificand := accumulate_le (accumulate_le (Nat.zero_le _))
  have size : maxSignificand = 18446744073709551615 := rfl
  have half : Nat.pow 2 63 = 9223372036854775808 := rfl
  unfold value? at value
  dsimp only at value
  -- Only a plain numeral stands for an integer, and only without a sign or within 64 bits with it.
  split at value
  · split at value
    · split at value
      · cases value
        omega
      · split at value
        · next range =>
          cases value
          simp only [Bool.and_eq_true, decide_eq_true_eq] at range
          omega
        · simp at value
    · simp at value
  · split at value
    · simp at value
    · split at value <;> simp at value

/-- A number that a numeral stands for. -/
def IsDenoted (n : Number) : Prop :=
  ∃ numeral : Numeral, numeral.value? = some n

theorem Token.number_of_next? {cs rest : List Char} {n : Number}
    (next : next? cs = some (.number (some n), rest)) : IsDenoted n := by
  unfold next? at next
  split at next <;> simp at next
  all_goals
    obtain ⟨numeral, -, value⟩ := next
    exact ⟨numeral, value⟩

theorem Token.number_of_scan? {room : Nat} {cs : List Char} {found : List Token} {n : Number}
    (scanned : scan? room cs = some found) (mem : .number (some n) ∈ found) : IsDenoted n := by
  induction room generalizing cs found with
  | zero =>
    cases cs with
    | nil => cases scanned; simp at mem
    | cons => simp [scan?] at scanned
  | succ room ih =>
    cases cs with
    | nil => cases scanned; simp at mem
    | cons c cs =>
      unfold scan? at scanned
      split at scanned
      · exact ih scanned mem
      · simp only [Option.bind_eq_bind, Option.bind_eq_some_iff, Option.some.injEq] at scanned
        obtain ⟨⟨token, after⟩, next, more, later, rfl⟩ := scanned
        rcases List.mem_cons.1 mem with rfl | mem
        · exact number_of_next? next
        · exact ih later mem

/-! ### Numbers of what was written -/

mutual

/-- All numbers in a written value that have a value themselves. -/
def Written.numbers : Written → List Number
  | .null | .bool _ | .text _ => []
  | .number n => n.toList
  | .list items => Written.itemsNumbers items
  | .object fields => Written.fieldsNumbers fields

def Written.itemsNumbers : List Written → List Number
  | [] => []
  | item :: rest => item.numbers ++ Written.itemsNumbers rest

def Written.fieldsNumbers : List (Option String × Written) → List Number
  | [] => []
  | (_, value) :: rest => value.numbers ++ Written.fieldsNumbers rest

end

/-- Numbers that are tokens, with what is left of the tokens. -/
structure TakenFrom (found : List Token) (taken : List Number) (rest : List Token) : Prop where
  numbers : ∀ n ∈ taken, .number (some n) ∈ found
  rest : rest ⊆ found

section
variable {found before rest : List Token} {taken more : List Number} {token : Token}

theorem TakenFrom.cons (given : TakenFrom found taken rest) :
    TakenFrom (token :: found) taken rest :=
  ⟨fun n mem => List.mem_cons_of_mem _ (given.numbers n mem),
    fun _ mem => List.mem_cons_of_mem _ (given.rest mem)⟩

theorem TakenFrom.append (given : TakenFrom found taken before)
    (later : TakenFrom before more rest) : TakenFrom found (taken ++ more) rest :=
  ⟨fun n mem => (List.mem_append.1 mem).elim (given.numbers n) fun mem =>
      given.rest (later.numbers n mem),
    fun _ mem => given.rest (later.rest mem)⟩

theorem TakenFrom.skip (given : TakenFrom found taken (token :: rest)) :
    TakenFrom found taken rest :=
  ⟨given.numbers, fun _ mem => given.rest (List.mem_cons_of_mem _ mem)⟩

theorem takenFrom_number {x : Option Number} : TakenFrom (.number x :: found) x.toList found :=
  ⟨fun n mem => by simp [Option.mem_toList.1 mem], fun _ mem => List.mem_cons_of_mem _ mem⟩

theorem takenFrom_none : TakenFrom found [] found :=
  ⟨by simp, fun _ mem => mem⟩

end

/-- The numbers of a value are among the tokens it is made of. By induction on the room of the
three readers together, since each calls the others with less. -/
theorem takenFrom (room : Nat) :
    (∀ found w rest, Written.value? room found = some (w, rest) →
      TakenFrom found w.numbers rest) ∧
    (∀ found items rest, Written.items? room found = some (items, rest) →
      TakenFrom found (Written.itemsNumbers items) rest) ∧
    (∀ found fields rest, Written.fields? room found = some (fields, rest) →
      TakenFrom found (Written.fieldsNumbers fields) rest) := by
  induction room with
  | zero => simp [Written.value?, Written.items?, Written.fields?]
  | succ room ih =>
    obtain ⟨values, items, fields⟩ := ih
    refine ⟨fun found w rest read => ?_, fun found taken rest read => ?_,
      fun found taken rest read => ?_⟩
    · unfold Written.value? at read
      split at read
      · cases read; exact takenFrom_none.cons
      · cases read; exact takenFrom_none.cons
      · cases read; exact takenFrom_number
      · cases read; exact takenFrom_none.cons
      · cases read; exact takenFrom_none.cons.cons
      · obtain ⟨⟨taken, after⟩, inner, same⟩ := Option.map_eq_some_iff.1 read
        cases same
        exact (items _ _ _ inner).cons
      · cases read; exact takenFrom_none.cons.cons
      · obtain ⟨⟨taken, after⟩, inner, same⟩ := Option.map_eq_some_iff.1 read
        cases same
        exact (fields _ _ _ inner).cons
      · contradiction
    · unfold Written.items? at read
      split at read
      · next item after first =>
        obtain ⟨⟨more, left⟩, later, same⟩ := Option.map_eq_some_iff.1 read
        cases same
        exact (values _ _ _ first).skip.append (items _ _ _ later)
      · next item after first =>
        cases read
        have taken := (values _ _ _ first).skip.append takenFrom_none
        exact taken
      · contradiction
    · unfold Written.fields? at read
      split at read
      · next name after =>
        split at read
        · next value after first =>
          obtain ⟨⟨more, left⟩, later, same⟩ := Option.map_eq_some_iff.1 read
          cases same
          exact ((values _ _ _ first).skip.append (fields _ _ _ later)).cons.cons
        · next value after first =>
          cases read
          exact ((values _ _ _ first).skip.append takenFrom_none).cons.cons
        · contradiction
      · contradiction

/-- Every number in a text that is read is one that a numeral stands for. -/
theorem isDenoted_of_parse? {s : String} {w : Written} {n : Number}
    (read : Written.parse? s = some w) (mem : n ∈ w.numbers) : IsDenoted n := by
  simp only [Written.parse?, Option.bind_eq_bind, Option.bind_eq_some_iff] at read
  obtain ⟨found, scanned, read⟩ := read
  split at read
  · next value whole =>
    cases read
    have taken := (takenFrom _).1 _ _ _ whole
    exact Token.number_of_scan? scanned (taken.numbers n mem)
  · contradiction

/-! ### Values that are read -/

theorem itemsDepth_le {items : List Json} {room : Nat} :
    itemsDepth items ≤ room ↔ ∀ item ∈ items, depth item ≤ room := by
  induction items with
  | nil => simp [itemsDepth]
  | cons item items ih => rw [itemsDepth, Nat.max_le, ih, List.forall_mem_cons]

theorem fieldsDepth_le {fields : List (String × Json)} {room : Nat} :
    fieldsDepth fields ≤ room ↔ ∀ field ∈ fields, depth field.2 ≤ room := by
  induction fields with
  | nil => simp [fieldsDepth]
  | cons field fields ih => rw [fieldsDepth, Nat.max_le, ih, List.forall_mem_cons]

theorem canonicalItems_iff {items : List Json} :
    CanonicalItems items ↔ ∀ item ∈ items, Canonical item := by
  induction items with
  | nil => simp [CanonicalItems]
  | cons item items ih => simp [CanonicalItems, ih]

theorem canonicalFields_iff {fields : List (String × Json)} :
    CanonicalFields fields ↔ ∀ field ∈ fields, Canonical field.2 := by
  induction fields with
  | nil => simp [CanonicalFields]
  | cons field fields ih => simp [CanonicalFields, ih]

theorem mem_itemsNumbers {items : List Json} {n : Number} :
    n ∈ itemsNumbers items ↔ ∃ item ∈ items, n ∈ numbers item := by
  induction items with
  | nil => simp [itemsNumbers]
  | cons item items ih => simp [itemsNumbers, ih]

theorem mem_fieldsNumbers {fields : List (String × Json)} {n : Number} :
    n ∈ fieldsNumbers fields ↔ ∃ field ∈ fields, n ∈ numbers field.2 := by
  induction fields with
  | nil => simp [fieldsNumbers]
  | cons field fields ih => simp [fieldsNumbers, ih]

/-- A value out of a text with these numbers, read with some room. -/
structure Made (room : Nat) (given : List Number) (v : Json) : Prop where
  depth_le : depth v ≤ room
  canonical : Canonical v
  numbers_subset : numbers v ⊆ given

section
variable {room : Nat} {given : List Number}

theorem made_list {items : List Json} (made : ∀ item ∈ items, Made room given item) :
    Made (room + 1) given (.list items) where
  depth_le := Nat.succ_le_succ (itemsDepth_le.2 fun item mem => (made item mem).depth_le)
  canonical := canonicalItems_iff.2 fun item mem => (made item mem).canonical
  numbers_subset n mem := by
    obtain ⟨item, inside, mem⟩ := mem_itemsNumbers.1 mem
    exact (made item inside).numbers_subset mem

theorem made_object {fields : List (String × Json)}
    (made : ∀ field ∈ fields, Made room given field.2) :
    Made (room + 1) given (ofFields fields) := by
  obtain ⟨sorted, whole, ascending, kept⟩ := exists_ofFields fields
  rw [whole]
  exact {
    depth_le := Nat.succ_le_succ
      (fieldsDepth_le.2 fun field mem => (made field (kept mem)).depth_le)
    canonical := ⟨ascending,
      canonicalFields_iff.2 fun field mem => (made field (kept mem)).canonical⟩
    numbers_subset := fun n mem => by
      obtain ⟨field, inside, mem⟩ := mem_fieldsNumbers.1 mem
      exact (made field (kept inside)).numbers_subset mem }

theorem Made.mono {v : Json} {more : List Number} (made : Made room given v)
    (within : given ⊆ more) : Made room more v :=
  ⟨made.depth_le, made.canonical, fun _ mem => within (made.numbers_subset mem)⟩

end

mutual

theorem made_of_toJson? : ∀ (w : Written) (room : Nat) {v : Json}, w.toJson? room = some v →
    Made room w.numbers v
  | .null, _, v, read => by
    cases read
    exact ⟨Nat.zero_le _, trivial, fun _ mem => mem⟩
  | .bool b, _, v, read => by
    cases read
    exact ⟨Nat.zero_le _, trivial, fun _ mem => mem⟩
  | .number x, _, v, read => by
    obtain ⟨n, rfl, rfl⟩ := Option.map_eq_some_iff.1 read
    exact ⟨Nat.zero_le _, trivial, fun _ mem => mem⟩
  | .text s, _, v, read => by
    obtain ⟨s, rfl, rfl⟩ := Option.map_eq_some_iff.1 read
    exact ⟨Nat.zero_le _, trivial, fun _ mem => mem⟩
  | .list items, 0, v, read => by simp [Written.toJson?] at read
  | .list items, room + 1, v, read => by
    obtain ⟨found, inner, rfl⟩ := Option.map_eq_some_iff.1 read
    exact made_list (made_of_itemsToJson? items room inner)
  | .object fields, 0, v, read => by simp [Written.toJson?] at read
  | .object fields, room + 1, v, read => by
    obtain ⟨found, inner, rfl⟩ := Option.map_eq_some_iff.1 read
    exact made_object (made_of_fieldsToJson? fields room inner)

theorem made_of_itemsToJson? : ∀ (items : List Written) (room : Nat) {found : List Json},
    Written.itemsToJson? room items = some found →
    ∀ item ∈ found, Made room (Written.itemsNumbers items) item
  | [], _, _, read, item, mem => by cases read; simp at mem
  | first :: items, room, _, read, item, mem => by
    simp only [Written.itemsToJson?, Option.bind_eq_bind, Option.bind_eq_some_iff,
      Option.some.injEq] at read
    obtain ⟨value, inner, more, later, rfl⟩ := read
    rcases List.mem_cons.1 mem with rfl | mem
    · exact (made_of_toJson? first room inner).mono (List.subset_append_left _ _)
    · exact (made_of_itemsToJson? items room later item mem).mono (List.subset_append_right _ _)

theorem made_of_fieldsToJson? : ∀ (fields : List (Option String × Written)) (room : Nat)
    {found : List (String × Json)}, Written.fieldsToJson? room fields = some found →
    ∀ field ∈ found, Made room (Written.fieldsNumbers fields) field.2
  | [], _, _, read, field, mem => by cases read; simp at mem
  | (name, first) :: fields, room, _, read, field, mem => by
    simp only [Written.fieldsToJson?, Option.bind_eq_bind, Option.bind_eq_some_iff,
      Option.some.injEq] at read
    obtain ⟨name, rfl, value, inner, more, later, rfl⟩ := read
    rcases List.mem_cons.1 mem with rfl | mem
    · exact (made_of_toJson? first room inner).mono (List.subset_append_left _ _)
    · exact (made_of_fieldsToJson? fields room later field mem).mono
        (List.subset_append_right _ _)

end

/-- A number that was read is read back from its own text if it is an integer. -/
theorem IsDenoted.reread? {n : Int} (denoted : IsDenoted (.int n)) :
    (Number.int n).reread? = some (.int n) := by
  obtain ⟨numeral, value⟩ := denoted
  obtain ⟨low, high⟩ := Numeral.value?_int value
  exact Number.reread?_int low high

/-- Numbers that were read are read back from their own texts if the doubles among them are. -/
theorem denoted_iff {found : List Number} (denoted : ∀ n ∈ found, IsDenoted n) :
    Denoted found ↔ ∀ x, .float x ∈ found → (Json.number (.float x)).ReadsBack := by
  simp only [readsBack_number]
  refine ⟨fun all x mem => all _ mem, fun doubles n mem => ?_⟩
  cases n with
  | int n => exact (denoted _ mem).reread?
  | float x => exact doubles x mem

end CommitPipeline.Json
