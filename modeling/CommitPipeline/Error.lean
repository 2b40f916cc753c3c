import CommitPipeline.Operation

/-! Why a call is rejected. -/
namespace CommitPipeline

/-- What a call tried to do with an operation. -/
inductive Transition where
  | complete
  | skip
  | reset
  | forceActive
  | addDependency
  deriving DecidableEq

def Transition.label : Transition → String
  | .complete => "complete"
  | .skip => "skip"
  | .reset => "reset to pending"
  | .forceActive => "force active"
  | .addDependency => "add a dependency to"

/-- Why a store refuses a write. -/
inductive StoreFault where
  | readOnly
  | statusRefused (id : OperationId)
  deriving DecidableEq

inductive Error where
  | unknownOperation (id : OperationId)
  | invalidTransition (id : OperationId) (status : Status) (transition : Transition)
  | orderingViolation (snapshot latest : Nat)
  | duplicateOperation (id : OperationId)
  | storage (fault : StoreFault)
  deriving DecidableEq

/-- The text of a fault, with operations called by the given names. -/
def StoreFault.messageWith (name : OperationId → String) : StoreFault → String
  | .readOnly => "store is read-only"
  | .statusRefused id => "status write for " ++ name id ++ " refused"

/-- The text of an error, with operations called by the given names. -/
def Error.messageWith (name : OperationId → String) : Error → String
  | .unknownOperation id => "Unknown operation: " ++ name id
  | .invalidTransition id status transition =>
    "Invalid transition: cannot " ++ transition.label ++ " operation " ++ name id ++ " while "
      ++ status.label
  | .orderingViolation snapshot latest =>
    "Ordering violation: snapshot " ++ toString snapshot
      ++ " is not greater than latest snapshot " ++ toString latest
  | .duplicateOperation id => "Duplicate operation: " ++ name id
  | .storage fault => "Storage error: " ++ fault.messageWith name

/-- The text of an error. -/
def Error.message (e : Error) : String :=
  e.messageWith toString

end CommitPipeline
