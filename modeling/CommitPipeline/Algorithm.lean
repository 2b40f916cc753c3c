import CommitPipeline.Text.Blank
import CommitPipeline.Text.Lowercase

/-! The two strategies for choosing what may start, and their names. -/
namespace CommitPipeline

/-- Under `commitGraph` graphs run one at a time, oldest first, and only dependencies within the
oldest graph matter. Under `flatGraph` every queued graph is considered at once, and order comes
from dependencies alone. -/
inductive Algorithm where
  | commitGraph
  | flatGraph
  deriving DecidableEq

namespace Algorithm

/-- The exact name of an algorithm, as plans spell it. -/
def label : Algorithm → String
  | .commitGraph => "commit_graph"
  | .flatGraph => "flat_graph"

/-- The name as a constructor, in diagnostic texts. -/
def title : Algorithm → String
  | .commitGraph => "CommitGraph"
  | .flatGraph => "FlatGraph"

/-- The algorithm with exactly this name. -/
def ofLabel? (s : String) : Option Algorithm :=
  if s = "commit_graph" then some .commitGraph
  else if s = "flat_graph" then some .flatGraph
  else none

theorem ofLabel?_label (a : Algorithm) : ofLabel? a.label = some a := by
  cases a <;> simp [ofLabel?, label]

/-- A name that no algorithm has, in the form in which names are compared. -/
structure Unknown where
  name : String
  deriving DecidableEq

def Unknown.message (e : Unknown) : String :=
  "invalid algorithm: " ++ e.name ++ " (expected \"commit_graph\" or \"flat_graph\")"

/-- Names are compared without blanks around them, in lower case, with underscores for hyphens. -/
def normalize (s : String) : String :=
  String.ofList <| (Text.lowercase (Text.trim s)).toList.map fun c => if c = '-' then '_' else c

/-- Reads a name given on the command line; either may be shortened to its first word. -/
def parse (s : String) : Except Unknown Algorithm :=
  let name := normalize s
  if name = "commit_graph" ∨ name = "commit" then .ok .commitGraph
  else if name = "flat_graph" ∨ name = "flat" then .ok .flatGraph
  else .error ⟨name⟩

end Algorithm
end CommitPipeline
