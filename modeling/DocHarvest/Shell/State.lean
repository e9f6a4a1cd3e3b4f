import DocHarvest.Environment
import DocHarvest.Files.Tree
import DocHarvest.Shell.Command

/-!
# The State of a Shell

What a script can read and change while it runs: files, variables, functions, its arguments, and
where its outputs go. What the two outputs print into the pipe that the caller reads is kept in
one text, in the order in which it was printed.

## Main definitions

* `Shell.Sink` — where an output goes.
* `Shell.State` — the state; `Shell.State.write` prints, `Shell.State.redirect` sends outputs
  elsewhere.
-/

namespace DocHarvest.Shell

open Files (Tree Location Fault)

/-- Where an output goes: to the caller, to a file, into the place of a command, or nowhere. -/
inductive Sink
  | pipe
  | file (location : Location)
  | inPlace
  | nowhere
  deriving DecidableEq, Repr

/-- The state of a running script. -/
structure State where
  tree : Tree
  name : Chars
  arguments : List Chars
  bindings : List (Chars × Chars) := []
  exported : List Chars := []
  functions : List (Chars × Command) := []
  status : Nat := 0
  input : Chars := []
  output : Sink := .pipe
  errors : Sink := .pipe
  printed : Chars := []
  inPlace : Chars := []

namespace State

/-! ### Variables -/

/-- The value of a variable, if it is set. -/
def get? (state : State) (name : Chars) : Option Chars :=
  state.bindings.lookup name

/-- Sets a variable. -/
def assign (state : State) (name value : Chars) : State :=
  { state with
    bindings := (name, value) :: state.bindings.filter fun (other, _) => other ≠ name }

/-- Unsets a variable. -/
def unset (state : State) (name : Chars) : State :=
  { state with bindings := state.bindings.filter fun (other, _) => other ≠ name }

/-- Adds a variable to those that programs are started with. -/
def exportName (state : State) (name : Chars) : State :=
  { state with exported := name :: state.exported }

/-- The environment that programs are started with. -/
def environment (state : State) : Environment :=
  (state.bindings.filter fun (name, _) => state.exported.contains name).map
    fun (name, value) => (Chars.toBytes name, Chars.toBytes value)

/-- The state in which a script starts. -/
def start (tree : Tree) (env : Environment) (name : Chars) (arguments : List Chars) : State :=
  let given := env.map fun (name, value) => (Chars.ofBytes name, Chars.ofBytes value)
  let state : State :=
    { tree, name, arguments
      bindings := given.filter fun (name, _) => isName name
      exported := given.map Prod.fst }
  state.assign "PWD".toList (Chars.ofBytes (Files.Path.absolute tree.workingDirectory))

/-! ### Printing -/

/-- Prints a text where a sink leads. -/
def write (state : State) (sink : Sink) (s : Chars) : State :=
  match sink with
  | .pipe => { state with printed := state.printed ++ s }
  | .inPlace => { state with inPlace := state.inPlace ++ s }
  | .nowhere => state
  | .file location =>
    match state.tree.append location (Chars.toBytes s) with
    | .ok tree => { state with tree }
    | .error _ => state

/-- Prints a text on the standard output. -/
def print (state : State) (s : Chars) : State :=
  state.write state.output s

/-- Prints a complaint about a line and sets the status. -/
def complain (state : State) (line : Nat) (words : Chars) (status : Nat) : State :=
  let place := state.name ++ ": ".toList ++ Chars.ofBytes (decimalNat line) ++ ": ".toList
  { state.write state.errors (place ++ words ++ ['\n']) with status }

/-! ### Redirections -/

/-- How a complaint speaks of a file that cannot be read. -/
def readingWords : Fault → String
  | .missing => "No such file"
  | .notDirectory => "No such file"
  | .isDirectory => "Is a directory"
  | fault => fault.message

/-- How a complaint speaks of a file that cannot be written. -/
def writingWords : Fault → String
  | .missing => "Directory nonexistent"
  | .notDirectory => "Directory nonexistent"
  | .isDirectory => "Is a directory"
  | fault => fault.message

/-- Sends an output to a sink. Only the two standard outputs matter. -/
def send (state : State) (descriptor : Nat) (sink : Sink) : State :=
  if descriptor = 1 then { state with output := sink }
  else if descriptor = 2 then { state with errors := sink }
  else state

/-- The sink that a descriptor stands for. -/
def sinkOf? (state : State) (name : Chars) : Option Sink :=
  if name = ['1'] then some state.output
  else if name = ['2'] then some state.errors
  else if name = ['-'] then some .nowhere
  else none

/-- Opens a file at whose end something is to be written. -/
def openEnd (tree : Tree) (path : Bytes) : Except Fault (Location × Tree) :=
  match tree.locate path with
  | .ok (_, .directory) => .error .isDirectory
  | .ok (location, _) => .ok (location, tree)
  | .error .missing => tree.create path
  | .error fault => .error fault

/-- Carries out one redirection to a target, or says why that is not possible. -/
def redirect (state : State) (descriptor : Nat) (direction : Direction) (target : Chars) :
    Except Chars State :=
  let path := Chars.toBytes target
  let toFile (opened : Except Fault (Location × Tree)) : Except Chars State :=
    match opened with
    | .ok (location, tree) => .ok ({ state with tree }.send descriptor (.file location))
    | .error fault =>
      .error ("cannot create ".toList ++ target ++ ": ".toList ++ (writingWords fault).toList)
  match direction with
  | .output => toFile (state.tree.create path)
  | .append => toFile (openEnd state.tree path)
  | .input =>
    match state.tree.contents path with
    | .ok content =>
      .ok (if descriptor = 0 then { state with input := Chars.ofBytes content } else state)
    | .error (_, .isDirectory) => .ok (if descriptor = 0 then { state with input := [] } else state)
    | .error (_, fault) =>
      .error ("cannot open ".toList ++ target ++ ": ".toList ++ (readingWords fault).toList)
  | .copy =>
    match state.sinkOf? target with
    | some sink => .ok (state.send descriptor sink)
    | none =>
      if target = ['0'] then .ok state
      else .error (target ++ ": Bad file descriptor".toList)

/-- The state after a command whose redirections were its own: inputs and outputs are again what
they were. -/
def restore (after before : State) (inputToo : Bool) : State :=
  { after with
    output := before.output
    errors := before.errors
    input := if inputToo then before.input else after.input }

/-- The state after a part that ran in a shell of its own: files, what was printed and the status
stay. -/
def rejoin (inner outer : State) : State :=
  { outer with
    tree := { inner.tree with workingDirectory := outer.tree.workingDirectory }
    status := inner.status
    input := inner.input
    printed := inner.printed
    inPlace := inner.inPlace }

end State

end DocHarvest.Shell
