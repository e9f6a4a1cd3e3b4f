import DocHarvest.Shell.Builtin

/-!
# Utilities

The programs on files that scripts call by their paths: showing, copying, moving, making and
removing them.
-/

namespace DocHarvest.Shell

open Files (Tree Fault)

/-- The directories that utilities are in. -/
def utilityDirectories : List Chars := ["/bin/", "/usr/bin/"].map String.toList

/-- The name of the utility at a path. -/
def utilityName? (path : Chars) : Option Chars :=
  (utilityDirectories.find? fun directory => directory.isPrefixOf path).map fun directory =>
    path.drop directory.length

/-- The words for a fault with a capital letter in front. -/
def capitalWords (fault : Fault) : Chars :=
  match fault.message.toList with
  | c :: rest => c.toUpper :: rest
  | [] => []

/-- Prints the complaint of a utility. -/
def State.lament (state : State) (name deed object : Chars) (fault : Fault) : State :=
  let words := name ++ ": ".toList ++ deed ++ object ++ ": ".toList ++ capitalWords fault ++ ['\n']
  { state.write state.errors words with status := 1 }

/-- An object between quotes. -/
def inQuotes (object : Chars) : Chars := '\'' :: object ++ ['\'']

/-- The arguments that are no options. -/
def operands (arguments : List Chars) : List Chars :=
  arguments.filter fun argument => argument.head? ≠ some '-' || argument.length = 1

/-- Shows a file. -/
def showFile (state : State) (name : Chars) : State :=
  match state.tree.contents (Chars.toBytes name) with
  | .ok content => state.print (Chars.ofBytes content)
  | .error (_, fault) => state.lament "cat".toList [] name fault

/-- Removes a file; it may be missing when that was allowed. -/
def removeFile (missingAllowed : Bool) (state : State) (name : Chars) : State :=
  let path := Chars.toBytes name
  let removed : Except Fault Tree :=
    match state.tree.inspect path with
    | .ok .directory => .error .isDirectory
    | _ => state.tree.remove path
  match removed with
  | .ok tree => { state with tree }
  | .error .missing =>
    if missingAllowed then state
    else state.lament "rm".toList "cannot remove ".toList (inQuotes name) .missing
  | .error fault => state.lament "rm".toList "cannot remove ".toList (inQuotes name) fault

/-- Makes a file if there is none. -/
def touchFile (state : State) (name : Chars) : State :=
  match State.openEnd state.tree (Chars.toBytes name) with
  | .ok (_, tree) => { state with tree }
  | .error .isDirectory => state
  | .error fault => state.lament "touch".toList "cannot touch ".toList (inQuotes name) fault

/-- Copies a file to another; when it is moved, the first is removed. -/
def copyFile (utility : Chars) (moved : Bool) (state : State) (source target : Chars) : State :=
  match state.tree.contents (Chars.toBytes source) with
  | .error (_, fault) => state.lament utility "cannot stat ".toList (inQuotes source) fault
  | .ok content =>
    match state.tree.save (Chars.toBytes target) content with
    | (.error (_, fault), tree) =>
      { state with tree }.lament utility "cannot create regular file ".toList
        (inQuotes target) fault
    | (.ok (), tree) =>
      let state := { state with tree }
      if moved then removeFile true state source else state

/-- What the utility with a name does. -/
def utility? (name : Chars) (arguments : List Chars) (state : State) : Option State :=
  let fresh := { state with status := 0 }
  match String.ofList name, operands arguments with
  | "cat", [] => some (fresh.print state.input)
  | "cat", files => some (files.foldl showFile fresh)
  | "rm", files =>
    let force := arguments.any fun argument => argument.head? = some '-' && argument.contains 'f'
    some (files.foldl (removeFile force) fresh)
  | "touch", files => some (files.foldl touchFile fresh)
  | "cp", [source, target] => some (copyFile name false fresh source target)
  | "mv", [source, target] => some (copyFile name true fresh source target)
  | "sleep", _ => some fresh
  | "true", _ => some fresh
  | "false", _ => some { state with status := 1 }
  | "echo", _ => some (fresh.print (echoed arguments))
  | _, _ => none

end DocHarvest.Shell
