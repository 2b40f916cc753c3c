import CommitPipeline.Json.Value
import CommitPipeline.Number.Extended
import CommitPipeline.Text.Quoted
import CommitPipeline.Toml.Value

/-! What plans are read from: values of either format, with the places they were read from. -/
namespace CommitPipeline.Plan

open Text (Span Placed)

inductive Node where
  | null
  | bool (b : Bool)
  /-- An integer, which may lie beyond all that is counted with. -/
  | integer (n : Option Int)
  /-- A number with a fraction or an exponent, which may lie beyond the doubles. -/
  | real (x : Option Extended)
  | text (s : String)
  /-- A day, a time of day or both. -/
  | moment (s : String)
  | list (items : List (Placed Node))
  /-- The names are in ascending order. -/
  | table (entries : List (Placed String × Placed Node))

namespace Node

mutual

/-- A JSON value as a node. It has no places. -/
def ofJson : Json → Node
  | .null => .null
  | .bool b => .bool b
  | .number (.int n) => .integer (some n)
  | .number (.float x) => .real (some (.finite x))
  | .text s => .text s
  | .list items => .list (itemsOfJson items)
  | .object fields => .table (entriesOfJson fields)

def itemsOfJson : List Json → List (Placed Node)
  | [] => []
  | item :: rest => ⟨.point 0, ofJson item⟩ :: itemsOfJson rest

def entriesOfJson : List (String × Json) → List (Placed String × Placed Node)
  | [] => []
  | (name, value) :: rest =>
    (⟨.point 0, name⟩, ⟨.point 0, ofJson value⟩) :: entriesOfJson rest

end

/-- Entries in the order of their names. -/
def sorted (entries : List (Placed String × Placed Node)) : List (Placed String × Placed Node) :=
  entries.mergeSort fun (a, _) (b, _) => (compare a.content b.content).isLE

mutual

/-- A TOML value as a node. -/
def ofToml : Toml.Value → Node
  | .text s => .text s
  | .integer n => .integer n
  | .float x => .real x
  | .bool b => .bool b
  | .moment s => .moment s
  | .list items => .list (itemsOfToml items)
  | .tables items => .list (itemsOfToml items)
  | .table _ entries => .table (sorted (entriesOfToml entries))

def itemsOfToml : List (Placed Toml.Value) → List (Placed Node)
  | [] => []
  | ⟨span, item⟩ :: rest => ⟨span, ofToml item⟩ :: itemsOfToml rest

def entriesOfToml : List (Placed String × Placed Toml.Value) → List (Placed String × Placed Node)
  | [] => []
  | (key, ⟨span, value⟩) :: rest => (key, ⟨span, ofToml value⟩) :: entriesOfToml rest

end

/-- The name of the field that marks a moment in a JSON value. -/
def momentField : String := "$__toml_private_datetime"

/-- Whether an integer fits into 64 bits, with or without sign. -/
def fits (n : Int) : Bool := -Int.pow 2 63 ≤ n && n < Int.pow 2 64

/-- What was found, in messages. -/
def title : Node → String
  | .null => "null"
  | .bool b => "boolean `" ++ toString b ++ "`"
  | .integer none => "integer"
  | .integer (some n) =>
    "integer `" ++ toString n ++ "`"
      ++ if fits n then "" else if n < Int.pow 2 127 then " as i128" else " as u128"
  | .real none => "floating point"
  | .real (some x) => "floating point `" ++ x.toText ++ "`"
  | .text s => "string " ++ Text.quoted s
  | .list _ => "sequence"
  | .moment _ | .table _ => "map"

/-- The kind of a node, in messages. -/
def kind : Node → String
  | .null => "null"
  | .bool _ => "boolean"
  | .integer _ => "integer"
  | .real _ => "float"
  | .text _ => "string"
  | .moment _ => "datetime"
  | .list _ => "array"
  | .table _ => "table"

end Node

/-- Why a node is not what a plan has in its place. -/
inductive Mismatch where
  /-- Something of another kind was wanted. -/
  | kind (found : Node) (wanted : String)
  | range (found : Node) (wanted : String)
  /-- A list that stands for a section has more or fewer items than the section has parts. -/
  | length (found : Nat) (title : String) (parts : Nat)
  | missing (part : String)
  | unknownAlgorithm (name : String)
  | notAlgorithm
  /-- A table that stands for an algorithm does not have one entry. -/
  | algorithmCount (several : Bool)
  /-- There is something behind the name of an algorithm. -/
  | algorithmContent (found : Node)
  | integerWithoutValue
  | realWithoutValue
  /-- An integer that JSON does not have. -/
  | notInJson

def Mismatch.message : Mismatch → String
  | .kind found wanted => "invalid type: " ++ found.title ++ ", expected " ++ wanted
  | .range found wanted => "invalid value: " ++ found.title ++ ", expected " ++ wanted
  | .length found title parts =>
    "invalid length " ++ toString found ++ ", expected struct " ++ title ++ " with "
      ++ toString parts ++ " elements"
  | .missing part => "missing field `" ++ part ++ "`"
  | .unknownAlgorithm name =>
    "unknown variant `" ++ name ++ "`, expected `commit_graph` or `flat_graph`"
  | .notAlgorithm => "wanted string or table"
  | .algorithmCount several =>
    "wanted exactly 1 element, " ++ if several then "more than 1 element" else "found 0 elements"
  | .algorithmContent (.list _) => "expected empty array"
  | .algorithmContent (.table _) => "expected empty table"
  | .algorithmContent found => "expected table, found " ++ found.kind
  | .integerWithoutValue => "integer number overflowed"
  | .realWithoutValue => "floating-point number overflowed"
  | .notInJson => "JSON number out of range"

end CommitPipeline.Plan
