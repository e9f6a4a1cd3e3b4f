import DocHarvest.Files.Fault
import DocHarvest.Text.Quoted

/-!
# Causes from Outside

Every failure that does not start in this program starts in one of three places: the file
system, the search for a program, or a party that reports a failure in its own words (a
stream that cannot be read further, a process that cannot be waited for).
-/

namespace DocHarvest

open Files (Fault Operation)

/-- Why a program was not found. -/
inductive LookupFault
  | notFound
  | inWorkingDirectory
  deriving DecidableEq, Repr

/-- The words for a failed search. -/
def LookupFault.message : LookupFault → String
  | notFound => "executable file not found in $PATH"
  | inWorkingDirectory => "cannot run executable found relative to current directory"

/-- What went wrong outside this program. -/
inductive Cause
  | file (operation : Operation) (path : Bytes) (fault : Fault)
  | program (name : Bytes) (fault : LookupFault)
  | reported (words : Bytes)
  deriving DecidableEq, Repr

/-- The words for a cause. -/
def Cause.message : Cause → Bytes
  | file operation path fault =>
    utf8 operation.word ++ utf8 " " ++ path ++ utf8 ": " ++ utf8 fault.message
  | program name fault => utf8 "exec: " ++ Text.quoted name ++ utf8 ": " ++ utf8 fault.message
  | reported words => words

end DocHarvest
