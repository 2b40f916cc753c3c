import CommitPipeline.CommandLine.Loading

/-! A directory in memory that holds files and nothing else. Of the directories around it nothing
is known but that they exist. -/
namespace CommitPipeline

structure Directory where
  files : List (String × ByteArray)

namespace Directory

/-- The longest name a file can have, in bytes. -/
def maxNameSize : Nat := 255

/-- The longest path, in bytes. -/
def maxPathSize : Nat := 4095

/-- How far a path has led: to the directory itself, or to one around it. -/
inductive Place where
  | inside
  | outside

/-- The file of a name in a place. -/
def file? (d : Directory) : Place → String → Option ByteArray
  | .inside, name => d.files.lookup name
  | .outside, _ => none

/-- Follows the parts of a path from a place on. -/
def follow (d : Directory) : Place → List String → Except FileFault ByteArray
  | _, [] => .error .isDirectory
  | place, name :: rest =>
    if name = "" ∨ name = "." then d.follow place rest
    else if name = ".." then d.follow .outside rest
    else if maxNameSize < name.utf8ByteSize then .error .nameTooLong
    else match d.file? place name with
      | none => .error .missing
      | some contents => if rest.isEmpty then .ok contents else .error .notDirectory

/-- The contents of the file at a path. A path with a slash in front starts at the outermost
directory. -/
def read (d : Directory) (path : String) : Except FileFault ByteArray :=
  if path.toList.contains '\x00' then .error .nulInName
  else if path = "" then .error .missing
  else if maxPathSize < path.utf8ByteSize then .error .nameTooLong
  else d.follow (if path.front = '/' then .outside else .inside) (path.splitOn "/")

end Directory
end CommitPipeline
