import CommitPipeline.Proofs.IdTexts
import CommitPipeline.Proofs.InstantTexts
import CommitPipeline.Proofs.ValuesRead
import CommitPipeline.Record

/-! A stored operation is read back as it was written. Its identifier, texts, status,
dependencies and hold always are; its numbers are if they have the width of their fields, and the
payload is if it can be read from its own text and leaves a bracket's depth to the record. -/
namespace CommitPipeline.Record
open Json (Written Number written)

/-! ### The parts -/

theorem id?_text (id : OperationId) : id? (.text (some (toString id))) = some id := by
  rw [id?, text?, Option.bind_some, OperationId.parse?_toString]

theorem mapM_id? (ids : List OperationId) :
    (Json.writtenItems (ids.map fun id => .text (toString id))).mapM id? = some ids := by
  induction ids with
  | nil => rfl
  | cons id ids ih => simp [Json.writtenItems, written, id?_text, ih]

theorem ofList_toList (ids : IdSet) : Std.ExtTreeSet.ofList ids.toList = ids := by
  refine Std.ExtTreeSet.ext_mem fun id => ?_
  simp [Std.ExtTreeSet.mem_ofList]

theorem dependencies?_written (ids : IdSet) : dependencies?
    (written (.list (ids.toList.map fun id => .text (toString id)))) = some ids := by
  simp [written, dependencies?, mapM_id?, ofList_toList]

theorem hold?_written (hold : Option Instant) : hold?
    (written ((hold.map fun t => Json.text (Rfc3339.render t)).getD .null)) = some hold := by
  cases hold with
  | none => rfl
  | some t => simp [written, hold?, text?, Rfc3339.parse?_render]

theorem integer?_eq_some {low high n : Int} {w : Written} : integer? low high w = some n ↔
    w = .number (some (.int n)) ∧ low ≤ n ∧ n ≤ high := by
  unfold integer?
  split
  · grind
  · simp_all

/-- A number is read out of a field if it is within the bounds of the field. -/
theorem integer?_written {low high n : Int} (least : -2 ^ 63 ≤ low) (most : high < 2 ^ 64) :
    integer? low high (written (Json.int n)) = some n ↔ low ≤ n ∧ n ≤ high := by
  rw [integer?_eq_some, and_iff_right_of_imp]
  rintro ⟨above, below⟩
  rw [Json.int, written, Number.reread?_int (by omega) (by omega)]

theorem snapshot?_written {n : Nat} : snapshot? (written (Json.nat n)) = some n ↔ n < 2 ^ 64 := by
  have range := @integer?_written 0 (Int.pow 2 64 - 1) n (by decide) (by decide)
  have width : Int.pow 2 64 - 1 = 18446744073709551615 := rfl
  rw [snapshot?, Option.map_eq_some_iff]
  constructor
  · rintro ⟨m, read, rfl⟩
    have := (integer?_eq_some.1 read).2
    omega
  · intro small
    exact ⟨n, range.2 (by omega), by omega⟩

theorem priority?_written {n : Int} : priority? (written (Json.int n)) = some n ↔
    -2 ^ 31 ≤ n ∧ n < 2 ^ 31 := by
  have range := @integer?_written (-Int.pow 2 31) (Int.pow 2 31 - 1) n (by decide) (by decide)
  have width : Int.pow 2 31 = 2147483648 := rfl
  rw [priority?, range]
  omega

section
variable {id pipeline snapshot status dependencies priority hold payload : Written}

theorem ofParts?_eq_some {op : Operation} :
    ofParts? id pipeline snapshot status dependencies priority hold payload = some op ↔
      id? id = some op.id ∧ text? pipeline = some op.pipeline ∧
      snapshot? snapshot = some op.snapshot ∧ status? status = some op.status ∧
      dependencies? dependencies = some op.dependencies ∧
      priority? priority = some op.priority ∧ hold? hold = some op.hold ∧
      payload.toJson? payloadDepth = some op.payload := by
  simp only [ofParts?, Option.bind_eq_bind, Option.bind_eq_some_iff, Option.pure_def,
    Option.some.injEq]
  constructor
  · rintro ⟨_, h1, _, h2, _, h3, _, h4, _, h5, _, h6, _, h7, _, h8, rfl⟩
    exact ⟨h1, h2, h3, h4, h5, h6, h7, h8⟩
  · rintro ⟨h1, h2, h3, h4, h5, h6, h7, h8⟩
    exact ⟨_, h1, _, h2, _, h3, _, h4, _, h5, _, h6, _, h7, _, h8, rfl⟩

end

/-! ### Reading what was written -/

theorem encode_eq (op : Operation) : encode op = .object [
    ("dependencies", .list (op.dependencies.toList.map fun id => .text (toString id))),
    ("hold_until", (op.hold.map fun t => Json.text (Rfc3339.render t)).getD .null),
    ("id", .text (toString op.id)),
    ("payload", op.payload),
    ("pipeline", .text op.pipeline),
    ("priority", Json.int op.priority),
    ("snapshot", Json.nat op.snapshot),
    ("status", .text op.status.label)] := rfl

theorem decode?_encode (op : Operation) : decode? (written (encode op)) =
    ofParts? (written (.text (toString op.id))) (written (.text op.pipeline))
      (written (Json.nat op.snapshot)) (written (.text op.status.label))
      (written (.list (op.dependencies.toList.map fun id => .text (toString id))))
      (written (Json.int op.priority))
      (written ((op.hold.map fun t => Json.text (Rfc3339.render t)).getD .null))
      (written op.payload) := by
  have once : noneTwice ["dependencies", "hold_until", "id", "payload", "pipeline", "priority",
      "snapshot", "status"] = true := by decide
  have fields : ∀ fields, written (.object fields) = .object (Json.writtenFields fields) :=
    fun _ => by rw [written]
  rw [encode_eq, fields]
  simp [Json.writtenFields, decode?, once, List.lookup_cons]

theorem read?_write_eq (op : Operation) : read? (write op) = decode? (written (encode op)) := by
  rw [read?, write, Json.Written.parse?_render, Option.bind_some]

theorem read?_write_iff (op : Operation) : read? (write op) = some op ↔
    op.snapshot < 2 ^ 64 ∧ (-2 ^ 31 ≤ op.priority ∧ op.priority < 2 ^ 31) ∧
      op.payload.depth ≤ payloadDepth ∧ op.payload.Canonical ∧ Json.Denoted op.payload.numbers := by
  rw [← Json.toJson?_written, read?_write_eq, decode?_encode, ofParts?_eq_some]
  rw [snapshot?_written, priority?_written, dependencies?_written, hold?_written]
  simp [written, id?_text, text?, status?, Status.ofLabel?_label]

/-! ### What reading a record finds -/

theorem mem_named {fields : List (Option String × Written)} {found : List (String × Written)}
    (named : (fields.mapM fun (name, value) => name.map (·, value)) = some found)
    {field : String × Written} (mem : field ∈ found) : (some field.1, field.2) ∈ fields := by
  induction fields generalizing found with
  | nil => cases named; simp at mem
  | cons first fields ih =>
    obtain ⟨name, value⟩ := first
    simp only [List.mapM_cons, Option.bind_eq_bind, Option.bind_eq_some_iff, Option.map_eq_some_iff,
      Option.pure_def, Option.some.injEq] at named
    obtain ⟨_, ⟨name, rfl, rfl⟩, more, later, rfl⟩ := named
    rcases List.mem_cons.1 mem with rfl | mem
    · simp
    · exact List.mem_cons_of_mem _ (ih later mem)

theorem numbers_subset_of_field {fields : List (Option String × Written)}
    {field : Option String × Written} (mem : field ∈ fields) :
    field.2.numbers ⊆ Json.Written.fieldsNumbers fields := by
  induction fields with
  | nil => simp at mem
  | cons first fields ih =>
    rcases List.mem_cons.1 mem with rfl | mem
    · exact List.subset_append_left _ _
    · exact fun n inside => List.mem_append_right _ (ih mem inside)

/-- A record that is read has its eight parts, and the numbers of the payload are in its text. -/
theorem exists_parts {w : Written} {op : Operation} (decoded : decode? w = some op) :
    ∃ id pipeline snapshot status dependencies priority hold payload,
      ofParts? id pipeline snapshot status dependencies priority hold payload = some op ∧
      payload.numbers ⊆ w.numbers := by
  unfold decode? at decoded
  split at decoded
  · next fields =>
    simp only [Option.bind_eq_bind, Option.bind_eq_some_iff] at decoded
    obtain ⟨found, named, decoded⟩ := decoded
    split at decoded
    · simp only [Option.bind_eq_some_iff] at decoded
      obtain ⟨id, _, pipeline, _, snapshot, _, status, _, dependencies, _, priority, _,
        payload, isPayload, parts⟩ := decoded
      obtain ⟨before, behind, split, -⟩ := List.lookup_eq_some_iff.1 isPayload
      have mem : ("payload", payload) ∈ found := by simp [split]
      exact ⟨_, _, _, _, _, _, _, _, parts, numbers_subset_of_field (mem_named named mem)⟩
    · contradiction
  · next id pipeline snapshot status dependencies priority hold payload =>
    refine ⟨_, _, _, _, _, _, _, _, decoded, fun n mem => ?_⟩
    simp [Json.Written.numbers, Json.Written.itemsNumbers, mem]
  · contradiction

/-- What is known of an operation that was read. -/
structure WasRead (op : Operation) : Prop where
  snapshot : op.snapshot < 2 ^ 64
  priority : -2 ^ 31 ≤ op.priority ∧ op.priority < 2 ^ 31
  depth : op.payload.depth ≤ payloadDepth
  canonical : op.payload.Canonical
  denoted : ∀ n ∈ op.payload.numbers, Json.IsDenoted n

theorem wasRead {s : String} {op : Operation} (read : read? s = some op) : WasRead op := by
  rw [read?, Option.bind_eq_some_iff] at read
  obtain ⟨w, parsed, decoded⟩ := read
  obtain ⟨id, pipeline, snapshot, status, dependencies, priority, hold, payload, parts, within⟩ :=
    exists_parts decoded
  obtain ⟨-, -, isSnapshot, -, -, isPriority, -, isPayload⟩ := ofParts?_eq_some.1 parts
  have made := Json.made_of_toJson? payload payloadDepth isPayload
  have wide : Int.pow 2 64 - 1 = 18446744073709551615 := rfl
  have narrow : Int.pow 2 31 = 2147483648 := rfl
  refine ⟨?_, ?_, made.depth_le, made.canonical,
    fun n mem => Json.isDenoted_of_parse? parsed (within (made.numbers_subset mem))⟩
  · obtain ⟨n, isSnapshot, whole⟩ := Option.map_eq_some_iff.1 isSnapshot
    have := (integer?_eq_some.1 isSnapshot).2
    omega
  · have := (integer?_eq_some.1 isPriority).2
    omega

/-! ### What is written -/

/-- The form of the dependencies and the hold in a record: the dependencies in ascending order
and each once, the hold in universal time with as few digits behind the point as show it. -/
structure WellWritten (op : Operation) : Prop where
  dependencies : ∃ ids : List OperationId,
    (encode op).field? "dependencies" = some (.list (ids.map fun id => .text (toString id))) ∧
    (ids.Pairwise fun a b => compare a b = .lt) ∧ ∀ id, id ∈ ids ↔ id ∈ op.dependencies
  no_hold : op.hold = none → (encode op).field? "hold_until" = some .null
  hold : ∀ t, op.hold = some t → ∃ moment fraction : List Char,
    (encode op).field? "hold_until" = some (.text (String.ofList (moment ++ fraction ++ ['Z']))) ∧
    '.' ∉ moment ∧ Rfc3339.Fewest (t.nanos % Instant.second) fraction

theorem wellWritten (op : Operation) : WellWritten op where
  dependencies := by
    refine ⟨op.dependencies.toList, ?_, Std.ExtTreeSet.ordered_toList,
      fun _ => Std.ExtTreeSet.mem_toList⟩
    rw [encode_eq]
    rfl
  no_hold none := by
    simp [encode_eq, Json.field?, List.lookup_cons, none]
  hold t given := by
    obtain ⟨moment, text, plain⟩ := Rfc3339.exists_moment t
    refine ⟨moment, _, ?_, plain, Rfc3339.fewest_fractionText (Nat.mod_lt _ (by decide))⟩
    simp [encode_eq, Json.field?, List.lookup_cons, given, Rfc3339.render, text]

/-- Reading a record and writing it are inverse to each other. An operation is read back from its
record exactly if its numbers have the width of their fields and its payload, which may nest one
bracket less than a text by itself, is read back from its own text. An operation that was read
lacks nothing of that, unless its payload has a double whose shortest text denotes another one. -/
theorem records_read_back :
    (∀ op : Operation, read? (write op) = some op ↔
      op.snapshot < 2 ^ 64 ∧ (-2 ^ 31 ≤ op.priority ∧ op.priority < 2 ^ 31) ∧
        op.payload.depth ≤ payloadDepth ∧ op.payload.ReadsBack) ∧
    (∀ s op, read? s = some op → (read? (write op) = some op ↔
      ∀ x, .float x ∈ op.payload.numbers → (Json.number (.float x)).ReadsBack)) ∧
    ∀ op, WellWritten op := by
  refine ⟨fun op => ?_, fun s op read => ?_, wellWritten⟩
  · have narrow : payloadDepth ≤ Json.maxDepth := by decide
    rw [read?_write_iff, Json.readsBack_iff]
    constructor
    · rintro ⟨snapshot, priority, within, canonical, denoted⟩
      exact ⟨snapshot, priority, within, Nat.le_trans within narrow, canonical, denoted⟩
    · rintro ⟨snapshot, priority, within, -, canonical, denoted⟩
      exact ⟨snapshot, priority, within, canonical, denoted⟩
  · obtain ⟨snapshot, priority, within, canonical, denoted⟩ := wasRead read
    rw [read?_write_iff, ← Json.denoted_iff denoted]
    constructor
    · rintro ⟨-, -, -, -, doubles⟩
      exact doubles
    · exact fun doubles => ⟨snapshot, priority, within, canonical, doubles⟩

/-- A record with a dependency in two spellings, a leap second before 1970 at an offset, and the
fields of the payload out of order. -/
def lateUpload : String :=
  "\x7b\"id\":\"00000000-0000-0000-0000-000000000001\",\"pipeline\":\"uploads\",\"snapshot\":3,"
    ++ "\"status\":\"active\",\"dependencies\":[\"00000000-0000-0000-0000-00000000000C\","
    ++ "\"0000000000000000000000000000000b\",\"urn:uuid:00000000-0000-0000-0000-00000000000c\"],"
    ++ "\"priority\":-2,\"hold_until\":\"1969-12-31T18:59:60.500-05:00\","
    ++ "\"payload\":\x7b\"size\":2.5,\"name\":\"a\"\x7d\x7d"

/-- The same record as it is written. -/
def lateUploadWritten : String :=
  "\x7b\"dependencies\":[\"00000000-0000-0000-0000-00000000000b\","
    ++ "\"00000000-0000-0000-0000-00000000000c\"],\"hold_until\":\"1969-12-31T23:59:60.500Z\","
    ++ "\"id\":\"00000000-0000-0000-0000-000000000001\","
    ++ "\"payload\":\x7b\"name\":\"a\",\"size\":2.5\x7d,\"pipeline\":\"uploads\",\"priority\":-2,"
    ++ "\"snapshot\":3,\"status\":\"active\"\x7d"

theorem lateUpload_read_back : ∃ op, read? lateUpload = some op ∧
    write op = lateUploadWritten ∧ read? lateUploadWritten = some op := by
  have computed : (read? lateUpload).map (fun op =>
      ((encode op).renderList, op.payload.numbers.all fun n => n.reread? = some n))
        = some (lateUploadWritten.toList, true) := by
    -- The texts are taken as lists of characters, which is what computing with them needs.
    unfold read? Written.parse? Json.Token.ofText? lateUpload lateUploadWritten
    simp only [String.toList_append]
    iterate 10 rw [String.toList_ofList]
    decide +kernel
  obtain ⟨op, read, computed⟩ := Option.map_eq_some_iff.1 computed
  obtain ⟨text, doubles⟩ := Prod.mk.inj computed
  have rewritten : write op = lateUploadWritten := by
    rw [write, Json.render, text, String.ofList_toList]
  refine ⟨op, read, rewritten, ?_⟩
  rw [← rewritten, (records_read_back.2.1 lateUpload op read).2 fun x mem => ?_]
  exact Json.readsBack_number.2 (by simpa using List.all_eq_true.1 doubles _ mem)

/-- A value in so many lists. -/
def nested : Nat → Json
  | 0 => .null
  | n + 1 => .list [nested n]

theorem depth_nested (n : Nat) : (nested n).depth = n := by
  induction n with
  | zero => rfl
  | succ n ih => simp [nested, Json.depth, Json.itemsDepth, ih]

theorem canonical_nested (n : Nat) : (nested n).Canonical := by
  induction n with
  | zero => trivial
  | succ n ih => exact ⟨ih, trivial⟩

theorem numbers_nested (n : Nat) : (nested n).numbers = [] := by
  induction n with
  | zero => rfl
  | succ n ih => simp [nested, Json.numbers, Json.itemsNumbers, ih]

theorem readsBack_nested {n : Nat} (within : n ≤ Json.maxDepth) : (nested n).ReadsBack := by
  rw [Json.readsBack_iff, depth_nested, numbers_nested]
  exact ⟨within, canonical_nested n, nofun⟩

/-- An operation whose payload nests as deep as a text may. -/
def deepUpload : Operation :=
  { Operation.new (OperationId.ofNat 1) with payload := nested Json.maxDepth }

/-- A record whose payload is read as a double other than the nearest one. -/
def largeUpload : String :=
  "[\"00000000-0000-0000-0000-000000000001\",\"\",0,\"pending\",[],0,null,3e49]"

/-- A payload that is read back from its own text may be lost in its record, and one that was
read may come back as another. -/
theorem payloads_lost :
    (deepUpload.snapshot < 2 ^ 64 ∧ (-2 ^ 31 ≤ deepUpload.priority ∧ deepUpload.priority < 2 ^ 31) ∧
      deepUpload.payload.ReadsBack ∧ read? (write deepUpload) ≠ some deepUpload) ∧
    ∃ op again, read? largeUpload = some op ∧ read? (write op) = some again ∧ again ≠ op := by
  refine ⟨⟨by decide, by decide, readsBack_nested (Nat.le_refl _), fun same => ?_⟩, ?_⟩
  · have within := ((read?_write_iff deepUpload).1 same).2.2.1
    have deep : deepUpload.payload.depth = Json.maxDepth := depth_nested _
    rw [deep] at within
    exact absurd within (by decide)
  · have computed : (read? largeUpload).any (fun op =>
        (decode? (written (encode op))).any fun again =>
          again.payload.numbers ≠ op.payload.numbers) = true := by
      unfold read? Written.parse? Json.Token.ofText? largeUpload
      rw [String.toList_ofList]
      decide +kernel
    obtain ⟨op, read, computed⟩ := (Option.any_eq_true _ _).1 computed
    obtain ⟨again, reread, different⟩ := (Option.any_eq_true _ _).1 computed
    rw [← read?_write_eq] at reread
    refine ⟨op, again, read, reread, fun same => ?_⟩
    simp [same] at different

end CommitPipeline.Record
