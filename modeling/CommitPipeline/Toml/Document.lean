import CommitPipeline.Toml.Outline
import CommitPipeline.Toml.Scalar
import CommitPipeline.Toml.Value

/-! TOML documents: statements put together into one table. -/
namespace CommitPipeline.Toml

open Text (Span Placed)

mutual

/-- The value of a form. -/
def Form.value : Form → Except Fault (Placed Value)
  | .scalar written => return ⟨written.piece.span, ← written.scalar⟩
  | .list span items => return ⟨span, .list (← itemValues [] items)⟩
  | .table span entries => return ⟨span, .table .inline (← inlineEntries [] entries)⟩

/-- The values of items, behind those found before, the latest first. -/
def itemValues (found : List (Placed Value)) : List Form → Except Fault (List (Placed Value))
  | [] => .ok found.reverse
  | item :: rest => do
    let value ← item.value
    itemValues (value :: found) rest

/-- The entries of a table between braces, added to those found before. -/
def inlineEntries (found : Entries) : List (List Written × Form) → Except Fault Entries
  | [] => .ok found
  | (path, form) :: rest => do
    let (path, key) ← keyOf path
    let value ← form.value
    inlineEntries (← found.assign path key value) rest

end

/-- The header under which statements stand. -/
structure Header where
  double : Bool
  span : Span
  path : List Key
  key : Key

/-- A document under construction: what the headers closed so far hold, the header that is open,
and the entries under it. -/
structure Draft where
  closed : Entries
  header : Option Header
  entries : Entries

namespace Draft

/-- Closes the header that is open. -/
def close (d : Draft) : Except Fault Entries :=
  match d.header with
  | none => .ok d.entries
  | some h =>
    if h.double then d.closed.addTable h.span h.path h.key d.entries
    else d.closed.closeTable h.span h.path h.key d.entries

/-- Takes a statement. -/
def take (d : Draft) : Statement → Except Fault Draft
  | .header double span path => do
    let closed ← d.close
    let (path, key) ← keyOf path
    let header : Header := ⟨double, span, path, key⟩
    if double then return ⟨closed, some header, []⟩
    else
      let opened ← closed.openTable span path key
      return ⟨opened, some header, opened.below (path ++ [key])⟩
  | .assign path form => do
    let (path, key) ← keyOf path
    let value ← form.value
    return { d with entries := ← d.entries.assign path key value }

end Draft

/-- Reads a document as a table. Faults of its outline come first, then the others in their
order. -/
def parse (source : String) : Except Fault (Placed Value) := do
  let draft ← (← outline source).foldlM Draft.take ⟨[], none, []⟩
  return ⟨⟨0, 0⟩, .table .header (← draft.close)⟩

end CommitPipeline.Toml
