import CommitPipeline.Number.Extended
import CommitPipeline.Toml.Fault

/-! TOML values with the places they were read from. A number that is written well may lie beyond
all that is counted with; it then has no value, which matters only to who asks for it. A table
remembers how it came about, which decides how it may grow. -/
namespace CommitPipeline.Toml

open Text (Span Placed)

/-- How a table came about. -/
inductive Origin where
  /-- By a header of its own, or the whole document. -/
  | header
  /-- By the header of a table below it. -/
  | implied
  /-- By a dotted key. -/
  | dotted
  /-- Between braces; such a table is complete. -/
  | inline
  deriving DecidableEq

/-- A key, or a part of one. -/
abbrev Key := Placed String

inductive Value where
  | text (s : String)
  | integer (n : Option Int)
  | float (x : Option Extended)
  | bool (b : Bool)
  /-- A day, a time of day or both, in its usual spelling. -/
  | moment (s : String)
  | list (items : List (Placed Value))
  /-- The tables of headers in double brackets, the latest last. -/
  | tables (items : List (Placed Value))
  | table (origin : Origin) (entries : List (Placed String × Placed Value))

abbrev Entries := List (Key × Placed Value)

/-- The kind of a value in messages. -/
def Value.kind : Value → String
  | .text _ => "string"
  | .integer _ => "integer"
  | .float _ => "float"
  | .bool _ => "boolean"
  | .moment _ => "datetime"
  | .list _ | .tables _ => "array"
  | .table .inline _ => "inline table"
  | .table _ _ => "table"

namespace Entries

/-- The value of a key. -/
def get? (name : String) (entries : Entries) : Option (Placed Value) :=
  (List.find? (fun (key, _) => key.content = name) entries).map (·.2)

/-- The entries with one of them changed or added. -/
def put (key : Key) (value : Placed Value) : Entries → Entries
  | [] => [(key, value)]
  | (other, kept) :: rest =>
    if other.content = key.content then (other, value) :: rest
    else (other, kept) :: put key value rest

/-- The entries of the table at the end of a path. Of several tables under one header the last is
meant. -/
def below : List Key → Entries → Entries
  | [], entries => entries
  | key :: path, entries =>
    match entries.get? key.content with
    | some ⟨_, .table _ inner⟩ => below path inner
    | some ⟨_, .tables items⟩ =>
      match items.getLast? with
      | some ⟨_, .table _ inner⟩ => below path inner
      | _ => []
    | _ => []

/-- Goes down a path and changes the entries at its end; tables that are missing are made. Of
several tables under one header the last is meant. A dotted key may not enter a table that has a
header of its own. -/
def within (dotted : Bool) (change : Origin → Entries → Except Fault Entries) :
    List Key → Origin → Entries → Except Fault Entries
  | [], origin, entries => change origin entries
  | key :: path, _, entries =>
    match entries.get? key.content with
    | none => do
      let made : Origin := if dotted then .dotted else .implied
      let inner ← within dotted change path made []
      return entries.put key ⟨key.span, .table made inner⟩
    | some ⟨_, .table .inline _⟩ => refuse (.notExtensible "inline table") key.span
    | some ⟨span, .table origin inner⟩ =>
      if dotted && origin = .header then refuse .duplicateKey key.span
      else do
        let inner ← within dotted change path origin inner
        return entries.put key ⟨span, .table origin inner⟩
    | some ⟨span, .tables items⟩ =>
      match items.getLast? with
      | some ⟨place, .table origin inner⟩ => do
        let inner ← within dotted change path origin inner
        return entries.put key ⟨span, .tables (items.dropLast ++ [⟨place, .table origin inner⟩])⟩
      | _ => refuse .duplicateKey key.span
    | some ⟨_, other⟩ => refuse (.notExtensible other.kind) key.span

/-- Gives a new key its value. The table that holds it must be the current one or have come about
by dotted keys. -/
def assign (path : List Key) (key : Key) (value : Placed Value) (entries : Entries) :
    Except Fault Entries :=
  within true (fun reached entries =>
    if decide (reached = .dotted) = path.isEmpty || (entries.get? key.content).isSome then
      refuse .duplicateKey key.span
    else .ok (entries.put key value)) path .header entries

/-- Opens the table of a header. One that only headers below it have implied becomes complete. -/
def openTable (span : Span) (path : List Key) (key : Key) (entries : Entries) :
    Except Fault Entries :=
  within false (fun _ entries =>
    match entries.get? key.content with
    | none => .ok (entries.put key ⟨span, .table .header []⟩)
    | some ⟨_, .table .implied inner⟩ => .ok (entries.put key ⟨span, .table .header inner⟩)
    | some _ => refuse .duplicateKey key.span) path .header entries

/-- Closes the table of a header with the entries it has in the end. -/
def closeTable (span : Span) (path : List Key) (key : Key) (entries body : Entries) :
    Except Fault Entries :=
  within false (fun _ entries => .ok (entries.put key ⟨span, .table .header body⟩))
    path .header entries

/-- Adds one more table under a header in double brackets. -/
def addTable (span : Span) (path : List Key) (key : Key) (entries body : Entries) :
    Except Fault Entries :=
  let item : Placed Value := ⟨span, .table .header body⟩
  within false (fun _ entries =>
    match entries.get? key.content with
    | none => .ok (entries.put key ⟨span, .tables [item]⟩)
    | some ⟨first, .tables items⟩ => .ok (entries.put key ⟨first, .tables (items ++ [item])⟩)
    | some _ => refuse .duplicateKey key.span) path .header entries

end Entries
end CommitPipeline.Toml
