import CommitPipeline.Store.Memory

/-! A store in memory that refuses chosen status writes, for exercising lost dispatches. -/
namespace CommitPipeline

/-- Status writes of the `refused` operations fail, those of all operations while `refusesAll`;
every other write goes to the memory. -/
structure RefusingStore where
  memory : Memory
  refused : IdSet
  refusesAll : Bool

namespace RefusingStore

def empty : RefusingStore := ⟨.empty, ∅, false⟩

/-- Whether a status write of an operation fails. -/
def refuses (s : RefusingStore) (id : OperationId) : Bool :=
  s.refusesAll || s.refused.contains id

/-- Performs a write in the memory, whatever is refused. -/
def pass (s : RefusingStore) (write : Write) : Except Error Unit × RefusingStore :=
  let (answer, memory) := s.memory.perform write
  (answer, { s with memory })

def perform (s : RefusingStore) (write : Write) : Except Error Unit × RefusingStore :=
  match write with
  | .status id _ | .statusAndHold id _ _ =>
    if s.refuses id then (.error (.storage (.statusRefused id)), s) else s.pass write
  | _ => s.pass write

instance : OperationStore RefusingStore := ⟨perform⟩

/-- Accepts every status write again. -/
def heal (s : RefusingStore) : RefusingStore :=
  { s with refused := ∅, refusesAll := false }

end RefusingStore
end CommitPipeline
