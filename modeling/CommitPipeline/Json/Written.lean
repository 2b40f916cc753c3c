import CommitPipeline.Json.Token

/-! A JSON text as it is written: fields in their order and with repetitions, and parts without
a value still in place. A value is made of it only where somebody asks for one, so that a part
nobody reads cannot fail. -/
namespace CommitPipeline.Json

inductive Written where
  | null
  | bool (b : Bool)
  | number (value : Option Number)
  | text (value : Option String)
  | list (items : List Written)
  | object (fields : List (Option String × Written))

namespace Written

mutual

/-- A value at the front of the tokens, and the tokens after it. -/
def value? : Nat → List Token → Option (Written × List Token)
  | 0, _ => none
  | n + 1, tokens =>
    match tokens with
    | .null :: rest => some (.null, rest)
    | .bool b :: rest => some (.bool b, rest)
    | .number x :: rest => some (.number x, rest)
    | .text s :: rest => some (.text s, rest)
    | .openList :: .closeList :: rest => some (.list [], rest)
    | .openList :: rest => (items? n rest).map fun (items, rest) => (.list items, rest)
    | .openObject :: .closeObject :: rest => some (.object [], rest)
    | .openObject :: rest => (fields? n rest).map fun (fields, rest) => (.object fields, rest)
    | _ => none

/-- The items of a list up to its closing bracket. -/
def items? : Nat → List Token → Option (List Written × List Token)
  | 0, _ => none
  | n + 1, tokens =>
    match value? n tokens with
    | some (item, .comma :: rest) => (items? n rest).map fun (items, rest) => (item :: items, rest)
    | some (item, .closeList :: rest) => some ([item], rest)
    | _ => none

/-- The fields of an object up to its closing brace. -/
def fields? : Nat → List Token → Option (List (Option String × Written) × List Token)
  | 0, _ => none
  | n + 1, tokens =>
    match tokens with
    | .text name :: .colon :: rest =>
      match value? n rest with
      | some (value, .comma :: rest) =>
        (fields? n rest).map fun (fields, rest) => ((name, value) :: fields, rest)
      | some (value, .closeObject :: rest) => some ([(name, value)], rest)
      | _ => none
    | _ => none

end

/-- Reads a whole text. Two calls at most are nested for each token. -/
def parse? (s : String) : Option Written := do
  let tokens ← Token.ofText? s
  match value? (2 * tokens.length + 1) tokens with
  | some (value, []) => some value
  | _ => none

mutual

/-- The value of a written one, if every part of it has a value and its brackets nest at most
`room` deep. -/
def toJson? (room : Nat) : Written → Option Json
  | .null => some .null
  | .bool b => some (.bool b)
  | .number x => x.map .number
  | .text s => s.map .text
  | .list items =>
    match room with
    | 0 => none
    | room + 1 => (itemsToJson? room items).map .list
  | .object fields =>
    match room with
    | 0 => none
    | room + 1 => (fieldsToJson? room fields).map Json.ofFields

def itemsToJson? (room : Nat) : List Written → Option (List Json)
  | [] => some []
  | item :: rest => do
    let value ← toJson? room item
    let more ← itemsToJson? room rest
    some (value :: more)

def fieldsToJson? (room : Nat) : List (Option String × Written) → Option (List (String × Json))
  | [] => some []
  | (name, field) :: rest => do
    let name ← name
    let value ← toJson? room field
    let more ← fieldsToJson? room rest
    some ((name, value) :: more)

end

end Written

/-- How deep brackets may nest in a value that is read. -/
def maxDepth : Nat := 127

/-- Reads a JSON text as a value. -/
def parse? (s : String) : Option Json := do
  (← Written.parse? s).toJson? maxDepth

end CommitPipeline.Json
