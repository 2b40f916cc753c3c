import CommitPipeline.Number.Binary64

/-! JSON values and their canonical objects: names in ascending order, each once. -/
namespace CommitPipeline

/-- A JSON number is an integer as it stands or a double. -/
inductive Json.Number where
  | int (n : Int)
  | float (x : Binary64)
  deriving DecidableEq

inductive Json where
  | null
  | bool (b : Bool)
  | number (n : Json.Number)
  | text (s : String)
  | list (items : List Json)
  | object (fields : List (String × Json))

namespace Json

instance : Inhabited Json := ⟨.null⟩

def int (n : Int) : Json := .number (.int n)

def nat (n : Nat) : Json := .int n

/-- Fields with one more, at its place in the order; it takes the place of one with its name. -/
def insertField (name : String) (value : Json) : List (String × Json) → List (String × Json)
  | [] => [(name, value)]
  | (other, kept) :: rest =>
    match compare name other with
    | .lt => (name, value) :: (other, kept) :: rest
    | .eq => (name, value) :: rest
    | .gt => (other, kept) :: insertField name value rest

/-- The canonical object of some fields. The last of several fields with one name counts. -/
def ofFields (fields : List (String × Json)) : Json :=
  .object (fields.foldl (fun sorted (name, value) => insertField name value sorted) [])

/-- The value of a field of an object. -/
def field? (name : String) : Json → Option Json
  | .object fields => fields.lookup name
  | _ => none

end Json
end CommitPipeline
