import DocHarvest.Cli.Footprint
import DocHarvest.Launch

/-!
# The Program

The outer layer: arguments, environment, standard input and the files that a call looks at are
collected, the call is worked out, and what it prints and changes is carried over. The formatter's
program is run as a script.
-/

namespace DocHarvest.Main

open Files (Tree Location Entry Path)

/-- A path as the operating system takes it. -/
def pathText (path : Bytes) : String :=
  String.ofList (Utf8.charsLossy path)

/-- The variables that a call looks at. -/
def variableNames : List String :=
  ["HOME", "PATH"] ++
    ([Key.Section.formatter, .catalog].map fun group => pathText group.variableName) ++
    Key.all.map fun key => pathText key.variableName

/-- The environment, as far as a call looks at it. -/
def environment : IO Environment := do
  let values ← variableNames.mapM fun name => do
    let value? ← IO.getEnv name
    return value?.map fun value => (utf8 name, utf8 value)
  return values.filterMap id

/-- Everything that a stream supplies. -/
partial def readStream (stream : IO.FS.Stream) (before : Bytes) : IO Bytes := do
  let chunk ← stream.read 65536
  if chunk.isEmpty then return before
  readStream stream (before ++ chunk.toList)

/-- The entry at a path, if there is one. A file that names an interpreter counts as one that can
be started. -/
def entryAt (path : String) : IO (Option (Bytes × Entry)) :=
  try
    let place ← IO.FS.realPath path
    let location := utf8 place.toString
    if ← place.isDir then return some (location, .directory)
    let content := (← IO.FS.readBinFile place).toList
    return some (location, .file content (Program.interpreter? content).isSome)
  catch _ => return none

/-- Adds what is at a location to a tree, together with a link where it is kept elsewhere. -/
def addLocation (tree : Tree) (location : Location) : IO Tree := do
  let path := Path.absolute location
  if (tree.find? location).isSome then return tree
  match ← entryAt (pathText path) with
  | none => return tree
  | some (place, entry) =>
    let real := (Path.split place).names
    let tree :=
      match entry with
      | .directory => tree.makeDirectory real
      | _ => tree.plant real entry
    return if real = location then tree else tree.plant location (.link place)

/-- Adds what is at a path, and the directories on the way to it. -/
def addPath (tree : Tree) (path : Bytes) : IO Tree :=
  let location := Path.resolve tree.workingDirectory path
  ((List.range location.length).map fun n => location.take (n + 1)).foldlM addLocation tree

/-- The tree of everything that a call looks at. -/
def snapshot (invocation : Invocation) : IO Tree := do
  let here := utf8 (← IO.currentDir).toString
  let directory := (Path.split here).names
  let start := { (Tree.bare.makeDirectory directory) with workingDirectory := directory }
  let known ← (invocation.footprint start).foldlM addPath start
  (invocation.footprint known).foldlM addPath known

/-- Carries over what has become of the entry at a location. -/
def carryOver (before : Tree) : Location × Entry → IO Unit
  | (location, entry) =>
    if before.find? location = some entry then pure ()
    else
      match entry with
      | .file content _ =>
        IO.FS.writeBinFile (pathText (Path.absolute location)) (ByteArray.mk content.toArray)
      | _ => pure ()

/-- Removes what is no longer there. -/
def removeGone (after : Tree) : Location × Entry → IO Unit
  | (location, _) =>
    if (after.find? location).isSome then pure ()
    else IO.FS.removeFile (pathText (Path.absolute location))

end DocHarvest.Main

open DocHarvest DocHarvest.Main in
/-- The program. -/
def main (arguments : List String) : IO UInt32 := do
  let asked : Invocation :=
    { arguments := arguments.map utf8, environment := ← environment, input := ([], .complete) }
  let input ← if asked.readsInput then readStream (← IO.getStdin) [] else pure []
  let invocation := { asked with input := (input, .complete) }
  let before ← snapshot invocation
  let launcher := Launcher.scripts invocation.environment
  let (outcome, _) := invocation.outcome launcher before 0
  (← IO.getStdout).write (ByteArray.mk outcome.output.toArray)
  (← IO.getStderr).write (ByteArray.mk outcome.errors.toArray)
  outcome.tree.entries.forM (carryOver before)
  before.entries.forM (removeGone outcome.tree)
  return if outcome.succeeds then 0 else 1
