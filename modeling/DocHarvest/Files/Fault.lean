import DocHarvest.Bytes

/-!
# Faults of the File System

Why the file system refuses an operation, and the words it does so in.
-/

namespace DocHarvest.Files

/-- A reason for which the file system refuses an operation. -/
inductive Fault
  | missing
  | isDirectory
  | notDirectory
  | nameTooLong
  | noSpace
  | invalid
  | denied
  | tooManyLinks
  | notEmpty
  | alreadyThere
  | badFormat
  | busy
  deriving DecidableEq, Repr

/-- The words for a fault. -/
def Fault.message : Fault → String
  | missing => "no such file or directory"
  | isDirectory => "is a directory"
  | notDirectory => "not a directory"
  | nameTooLong => "file name too long"
  | noSpace => "no space left on device"
  | invalid => "invalid argument"
  | denied => "permission denied"
  | tooManyLinks => "too many levels of symbolic links"
  | notEmpty => "directory not empty"
  | alreadyThere => "file exists"
  | badFormat => "exec format error"
  | busy => "device or resource busy"

/-- An operation on a path that can be refused. -/
inductive Operation
  | opening
  | reading
  | writing
  | inspecting
  | removing
  | executing
  deriving DecidableEq, Repr

/-- The word for an operation. -/
def Operation.word : Operation → String
  | opening => "open"
  | reading => "read"
  | writing => "write"
  | inspecting => "stat"
  | removing => "remove"
  | executing => "fork/exec"

end DocHarvest.Files
