import DocHarvest.Shell.Expansion
import DocHarvest.Shell.Test

/-!
# Commands of the Shell Itself

The commands that a shell carries out without starting a program, as far as they run no other
commands.

## Main definitions

* `Shell.Flow` — where a script goes on after a command.
* `Shell.builtin?` — what a command of the shell itself does.
-/

namespace DocHarvest.Shell

/-- Where a script goes on after a command: with the next one, nowhere, after the function, or
after or at the start of the loop a number of levels up. -/
inductive Flow
  | next
  | exit
  | back
  | leave (levels : Nat)
  | again (levels : Nat)
  deriving DecidableEq, Repr

/-- The state with a status, and the script going on. -/
def State.ends (state : State) (status : Nat) : State × Flow :=
  ({ state with status }, .next)

/-- The number that an argument gives, or another if there is none. -/
def numberOr (other : Nat) (arguments : List Chars) : Nat :=
  match arguments with
  | [] => other
  | s :: _ => (integerOf s).1.toNat

/-! ### Reading lines -/

/-- The words of a line as they are shared among a number of variables: the last gets the rest. -/
def shareWords : Nat → Chars → List Chars
  | 0, _ => []
  | 1, s =>
    [((s.dropWhile partsFields).reverse.dropWhile partsFields).reverse]
  | n + 1, s =>
    let s := s.dropWhile partsFields
    let word := s.takeWhile fun c => !partsFields c
    word :: shareWords n (s.drop word.length)

/-- A line of the input, with backslashes as they are or resolved, what follows it, and whether
it was complete. -/
def inputLine (raw : Bool) : Chars → Chars × Chars × Bool
  | [] => ([], [], false)
  | '\n' :: rest => ([], rest, true)
  | '\\' :: c :: rest =>
    let (line, after, complete) := inputLine raw rest
    if raw then
      if c = '\n' then (['\\'], rest, true) else ('\\' :: c :: line, after, complete)
    else if c = '\n' then (line, after, complete)
    else (c :: line, after, complete)
  | c :: rest =>
    let (line, after, complete) := inputLine raw rest
    (c :: line, after, complete)

/-- Reads a line into variables. -/
def readVariables (state : State) (arguments : List Chars) : State × Flow :=
  let raw := arguments.head? = some ['-', 'r']
  let names := if raw then arguments.drop 1 else arguments
  let (line, rest, complete) := inputLine raw state.input
  let state := { state with input := rest }
  let words := shareWords names.length line
  let state := (names.zip words).foldl (fun state (name, word) => state.assign name word) state
  state.ends (if complete then 0 else 1)

/-! ### Variables and arguments -/

/-- Sets a variable as an argument with an equals sign says; its name is the result. -/
def assignArgument (state : State) (argument : Chars) : Chars × State :=
  let name := argument.takeWhile (· ≠ '=')
  match argument.drop name.length with
  | [] => (name, state)
  | _ :: value => (name, state.assign name value)

/-- The arguments that a command sets, after its options. -/
def setArguments (state : State) (arguments : List Chars) : State :=
  match arguments with
  | ['-', '-'] :: rest => { state with arguments := rest }
  | ('-' :: _) :: _ => state
  | ('+' :: _) :: _ => state
  | [] => state
  | _ => { state with arguments }

/-- Goes to a directory. -/
def changeDirectory (state : State) (line : Nat) (arguments : List Chars) : State × Flow :=
  let target := arguments.head?.getD ((state.get? "HOME".toList).getD [])
  match state.tree.locate (Chars.toBytes target) with
  | .ok (location, .directory) =>
    let state := { state with tree := { state.tree with workingDirectory := location } }
    (state.assign "PWD".toList (Chars.ofBytes (Files.Path.absolute location))).ends 0
  | _ => (state.complain line ("cd: can't cd to ".toList ++ target) 2, .next)

/-! ### All of them -/

/-- What a command of the shell itself does, if the name is that of one. -/
def builtin? (line : Nat) (name : Chars) (arguments : List Chars) (state : State) :
    Option (State × Flow) :=
  let tested (words : List Chars) : State × Flow :=
    match condition? state.tree words with
    | some holds => state.ends (if holds then 0 else 1)
    | none => (state.complain line (name ++ ": unexpected operator".toList) 2, .next)
  match String.ofList name with
  | ":" | "true" | "trap" | "wait" | "umask" | "ulimit" | "hash" | "alias" => some (state.ends 0)
  | "false" => some (state.ends 1)
  | "echo" => some ((state.print (echoed arguments)).ends 0)
  | "printf" =>
    match arguments with
    | [] => some (state.complain line "printf: usage: printf format [arg ...]".toList 2, .next)
    | format :: rest =>
      let (text, fine) := formatted format rest
      some ((state.print text).ends (if fine then 0 else 1))
  | "exit" => some ({ state with status := numberOr state.status arguments % 256 }, .exit)
  | "return" => some ({ state with status := numberOr state.status arguments % 256 }, .back)
  | "break" => some ({ state with status := 0 }, .leave (numberOr 1 arguments - 1))
  | "continue" => some ({ state with status := 0 }, .again (numberOr 1 arguments - 1))
  | "shift" =>
    some (({ state with arguments := state.arguments.drop (numberOr 1 arguments) }).ends 0)
  | "set" => some ((setArguments state arguments).ends 0)
  | "unset" => some ((arguments.foldl State.unset state).ends 0)
  | "export" | "readonly" =>
    let state := arguments.foldl
      (fun state argument =>
        let (name, state) := assignArgument state argument
        state.exportName name)
      state
    some (state.ends 0)
  | "local" =>
    some ((arguments.foldl (fun state argument => (assignArgument state argument).2) state).ends 0)
  | "read" => some (readVariables state arguments)
  | "test" => some (tested arguments)
  | "[" =>
    if arguments.getLast? = some [']'] then some (tested arguments.dropLast)
    else some (state.complain line "[: missing ]".toList 2, .next)
  | "cd" => some (changeDirectory state line arguments)
  | "pwd" =>
    some ((state.print (Chars.ofBytes (Files.Path.absolute state.tree.workingDirectory) ++
      ['\n'])).ends 0)
  | _ => none

end DocHarvest.Shell
