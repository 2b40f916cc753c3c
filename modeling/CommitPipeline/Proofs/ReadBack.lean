import CommitPipeline.Proofs.CanonicalObjects
import CommitPipeline.Proofs.JsonTexts

/-! Which values are read back from their own text. Three things can stand in the way: brackets
that nest too deep, an object whose names are not in order, and a number whose text denotes
another one. A value that was read has the first two in order. -/
namespace CommitPipeline.Json

mutual

/-- How deep the brackets of a value nest. -/
def depth : Json → Nat
  | .null | .bool _ | .number _ | .text _ => 0
  | .list items => itemsDepth items + 1
  | .object fields => fieldsDepth fields + 1

def itemsDepth : List Json → Nat
  | [] => 0
  | item :: rest => max (depth item) (itemsDepth rest)

def fieldsDepth : List (String × Json) → Nat
  | [] => 0
  | (_, value) :: rest => max (depth value) (fieldsDepth rest)

end

mutual

/-- All numbers in a value. -/
def numbers : Json → List Number
  | .null | .bool _ | .text _ => []
  | .number n => [n]
  | .list items => itemsNumbers items
  | .object fields => fieldsNumbers fields

def itemsNumbers : List Json → List Number
  | [] => []
  | item :: rest => numbers item ++ itemsNumbers rest

def fieldsNumbers : List (String × Json) → List Number
  | [] => []
  | (_, value) :: rest => numbers value ++ fieldsNumbers rest

end

mutual

/-- Whether every object in a value has its names in order. -/
def Canonical : Json → Prop
  | .null | .bool _ | .number _ | .text _ => True
  | .list items => CanonicalItems items
  | .object fields => Ascending fields ∧ CanonicalFields fields

def CanonicalItems : List Json → Prop
  | [] => True
  | item :: rest => Canonical item ∧ CanonicalItems rest

def CanonicalFields : List (String × Json) → Prop
  | [] => True
  | (_, value) :: rest => Canonical value ∧ CanonicalFields rest

end

/-! ### Values from their own text -/

/-- Numbers that their own texts denote. -/
def Denoted (found : List Number) : Prop :=
  ∀ n ∈ found, n.reread? = some n

theorem denoted_append {front back : List Number} :
    Denoted (front ++ back) ↔ Denoted front ∧ Denoted back :=
  List.forall_mem_append

theorem names_of_fieldsToJson? {room : Nat} : ∀ {fields found : List (String × Json)},
    Written.fieldsToJson? room (writtenFields fields) = some found →
    found.map (·.1) = fields.map (·.1)
  | [], found, read => by
    cases read
    rfl
  | (name, value) :: fields, found, read => by
    simp only [writtenFields, Written.fieldsToJson?, Option.bind_eq_bind, Option.bind_some,
      Option.bind_eq_some_iff, Option.some.injEq] at read
    obtain ⟨_, _, more, later, rfl⟩ := read
    simp [names_of_fieldsToJson? later]

mutual

/-- Exactly the values without an obstacle are made of what is read in their texts. -/
theorem toJson?_written : ∀ (v : Json) (room : Nat), (written v).toJson? room = some v ↔
    depth v ≤ room ∧ Canonical v ∧ Denoted (numbers v)
  | .null, _ => by simp [written, Written.toJson?, depth, Canonical, numbers, Denoted]
  | .bool _, _ => by simp [written, Written.toJson?, depth, Canonical, numbers, Denoted]
  | .text _, _ => by simp [written, Written.toJson?, depth, Canonical, numbers, Denoted]
  | .number n, _ => by simp [written, Written.toJson?, depth, Canonical, numbers, Denoted]
  | .list items, 0 => by simp [written, Written.toJson?, depth]
  | .list items, room + 1 => by
    simp [written, Written.toJson?, depth, Canonical, numbers, itemsToJson?_written items room]
  | .object fields, 0 => by simp [written, Written.toJson?, depth]
  | .object fields, room + 1 => by
    have inner := fieldsToJson?_written fields room
    simp only [written, Written.toJson?, depth, Canonical, numbers, Option.map_eq_some_iff,
      Nat.add_le_add_iff_right]
    constructor
    · rintro ⟨found, read, made⟩
      have ascending := ascending_ofFields made
      have names : found.map (·.1) = fields.map (·.1) := names_of_fieldsToJson? read
      have same : Json.object found = .object fields := by
        rw [← made, ofFields_eq (by rw [Ascending, names]; exact ascending)]
      cases same
      obtain ⟨within, canonical, denoted⟩ := inner.1 read
      exact ⟨within, ⟨ascending, canonical⟩, denoted⟩
    · rintro ⟨within, ⟨ascending, canonical⟩, denoted⟩
      exact ⟨fields, inner.2 ⟨within, canonical, denoted⟩, ofFields_eq ascending⟩

theorem itemsToJson?_written : ∀ (items : List Json) (room : Nat),
    Written.itemsToJson? room (writtenItems items) = some items ↔
      itemsDepth items ≤ room ∧ CanonicalItems items ∧ Denoted (itemsNumbers items)
  | [], room => by
    simp [writtenItems, Written.itemsToJson?, itemsDepth, CanonicalItems, itemsNumbers, Denoted]
  | item :: items, room => by
    have first := toJson?_written item room
    have later := itemsToJson?_written items room
    simp only [writtenItems, Written.itemsToJson?, Option.bind_eq_bind, Option.bind_eq_some_iff,
      Option.some.injEq, List.cons.injEq, itemsDepth, CanonicalItems, itemsNumbers,
      denoted_append, Nat.max_le]
    grind

theorem fieldsToJson?_written : ∀ (fields : List (String × Json)) (room : Nat),
    Written.fieldsToJson? room (writtenFields fields) = some fields ↔
      fieldsDepth fields ≤ room ∧ CanonicalFields fields ∧ Denoted (fieldsNumbers fields)
  | [], room => by
    simp [writtenFields, Written.fieldsToJson?, fieldsDepth, CanonicalFields, fieldsNumbers,
      Denoted]
  | (name, value) :: fields, room => by
    have first := toJson?_written value room
    have later := fieldsToJson?_written fields room
    simp only [writtenFields, Written.fieldsToJson?, Option.bind_eq_bind, Option.bind_some,
      Option.bind_eq_some_iff, Option.some.injEq, List.cons.injEq, Prod.mk.injEq, true_and,
      fieldsDepth, CanonicalFields, fieldsNumbers, denoted_append, Nat.max_le]
    grind

end

/-- Whether a value is what is read in its own text. -/
def ReadsBack (v : Json) : Prop :=
  parse? v.render = some v

theorem readsBack_iff {v : Json} :
    v.ReadsBack ↔ depth v ≤ maxDepth ∧ Canonical v ∧ Denoted (numbers v) := by
  rw [ReadsBack, parse?, Written.parse?_render]
  exact toJson?_written v maxDepth

theorem readsBack_number {n : Number} :
    (Json.number n).ReadsBack ↔ n.reread? = some n := by
  simp [readsBack_iff, depth, Canonical, numbers, Denoted]

end CommitPipeline.Json
