import CommitPipeline.Plan.Check
import CommitPipeline.Plan.Decode

/-! Reading a plan from a file, and what is said when that fails. -/
namespace CommitPipeline

/-- Why a file cannot be read as text. -/
inductive FileFault where
  | missing
  | isDirectory
  | notDirectory
  | nameTooLong
  | nulInName
  | notText
  | other (text : String)

def FileFault.message : FileFault → String
  | .missing => "No such file or directory (os error 2)"
  | .isDirectory => "Is a directory (os error 21)"
  | .notDirectory => "Not a directory (os error 20)"
  | .nameTooLong => "File name too long (os error 36)"
  | .nulInName => "file name contained an unexpected NUL byte"
  | .notText => "stream did not contain valid UTF-8"
  | .other text => text

/-- Why a file is not taken as a plan. -/
inductive LoadFault where
  | file (fault : FileFault)
  /-- The text is not TOML, or not of the form of a plan. -/
  | unreadable (source : String) (fault : Plan.Unreadable)
  | plan (fault : Plan.Fault)

namespace LoadFault

def message : LoadFault → String
  | .file fault => "IO error: " ++ fault.message
  | .unreadable source fault => "TOML parsing error: " ++ fault.report source
  | .plan fault => "Configuration error: " ++ fault.message

/-- What is told as the causes of a failed start, the outermost first. -/
def causes : LoadFault → List String
  | .file fault => [message (.file fault), fault.message]
  | .unreadable source fault => [message (.unreadable source fault), fault.report source]
  | .plan fault => [message (.plan fault)]

/-- What the program was doing. -/
def context (path : String) : String := "loading plan '" ++ path ++ "'"

end LoadFault

/-- The plan in the contents of a file. -/
def Plan.load (contents : Except FileFault ByteArray) : Except LoadFault Plan :=
  match contents with
  | .error fault => .error (.file fault)
  | .ok bytes =>
    match String.fromUTF8? bytes with
    | none => .error (.file .notText)
    | some text =>
      match Plan.ofToml text with
      | .error fault => .error (.unreadable text fault)
      | .ok plan =>
        match plan.check with
        | .ok plan => .ok plan
        | .error fault => .error (.plan fault)

/-- The lines of a cause. They are indented, and the first one has a number if there is one. -/
def causeLines (number : Option Nat) (cause : String) : List String :=
  let (first, others) := match number with
    | some n => ("".pushn ' ' (5 - (toString n).length) ++ toString n ++ ": ", "       ")
    | none => ("    ", "    ")
  match cause.splitOn "\n" with
  | [] => []
  | line :: rest => (first ++ line) :: rest.map (others ++ ·)

/-- The lines that tell of an error: what was attempted, then the causes, numbered from zero if
there are several. -/
def errorLines (context : String) (causes : List String) : List String :=
  (("syncpipe error: " ++ context).splitOn "\n") ++ match causes with
    | [] => []
    | [cause] => ["", "Caused by:"] ++ causeLines none cause
    | causes =>
      ["", "Caused by:"] ++ causes.zipIdx.flatMap fun (cause, n) => causeLines (some n) cause

end CommitPipeline
