import DocHarvest.Cause
import DocHarvest.Environment
import DocHarvest.Files.Tree

/-!
# Programs

How a program is found and whether it can be started. A name without a slash is searched for in
the directories of the search path; a name with a slash is a path. What can be started is a
script whose first line names a shell.

## Main definitions

* `Program.search` — the path of the program with a name.
* `Program.scriptAt` — the script at a path, if it can be started.
-/

namespace DocHarvest.Program

open Files (Tree Path Fault)

/-! ### Searching -/

/-- The directories of the search path; an empty name stands for the working directory. -/
def searchPath (env : Environment) : List Bytes :=
  let path := env.get (utf8 "PATH")
  if path.isEmpty then []
  else (Bytes.splitAt (UInt8.ofNat ':'.toNat) path).map fun directory =>
    if directory.isEmpty then Path.here else directory

/-- Whether a path leads to a file that may be started. -/
def isExecutable (tree : Tree) (path : Bytes) : Bool :=
  match tree.inspect path with
  | .ok (.file _ executable) => executable
  | _ => false

/-- Whether a path starts at the root. -/
def isAbsolute (path : Bytes) : Bool :=
  path.head? = some Byte.slash

/-- The path of a name in a directory, without detours when it starts at the root. -/
def pathIn (directory name : Bytes) : Bytes :=
  if isAbsolute directory then Path.absolute (Path.resolve [] directory ++ [name])
  else Path.below directory name

/-- The path of the program with a name that has no slash. A program that is found through a
directory given relative to the working directory is not started. -/
def search (tree : Tree) (env : Environment) (name : Bytes) : Except Cause Bytes :=
  let candidates := (searchPath env).map fun directory => pathIn directory name
  match candidates.find? (isExecutable tree) with
  | none => .error (.program name .notFound)
  | some path =>
    if isAbsolute path then .ok path else .error (.program name .inWorkingDirectory)

/-- The path of a program: what it is called when that has a slash, and otherwise where the search
finds it. -/
def locate (tree : Tree) (env : Environment) (name : Bytes) : Except Cause Bytes :=
  if name.contains Byte.slash then .ok name else search tree env name

/-! ### Starting -/

/-- The shells that scripts can name. -/
def shells : List Bytes :=
  ["/bin/sh", "/usr/bin/sh", "/bin/dash", "/usr/bin/dash", "/bin/bash", "/usr/bin/bash"].map utf8

/-- The program that the first line of a script names. -/
def interpreter? (script : Bytes) : Option Bytes :=
  match Bytes.dropStem? (utf8 "#!") script with
  | none => none
  | some rest =>
    let isBlank (b : UInt8) : Bool := b = Byte.space || b = Byte.tab
    let line := (rest.takeWhile (· ≠ Byte.lineFeed)).dropWhile isBlank
    let path := line.takeWhile fun b => !isBlank b
    if path.isEmpty then none else some path

/-- Whether a script can be handed to the program that its first line names. -/
def checkInterpreter (tree : Tree) (path : Bytes) : Except Fault Unit :=
  if shells.contains path then .ok ()
  else
    match tree.inspect path with
    | .error fault => .error fault
    | .ok (.file _ true) => .error .badFormat
    | .ok _ => .error .denied

/-- The script at a path, if it can be started. -/
def scriptAt (tree : Tree) (path : Bytes) : Except Fault Bytes :=
  match tree.inspect path with
  | .error fault => .error fault
  | .ok (.file content true) =>
    match interpreter? content with
    | none => .error .badFormat
    | some interpreter => (checkInterpreter tree interpreter).map fun () => content
  | .ok _ => .error .denied

end DocHarvest.Program
