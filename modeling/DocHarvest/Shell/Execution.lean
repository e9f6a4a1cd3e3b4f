import DocHarvest.Program
import DocHarvest.Shell.Script
import DocHarvest.Shell.Utility

/-!
# Running Scripts

What a script does: its commands run one after the other, change the state, print, and decide
where to go on. A script that does not come to an end is given up after a number of steps.

## Main definitions

* `Shell.execute` — what a command does.
* `Shell.runSource` — what the commands in a text do.
* `Shell.runScript` — what a script does that is started as a program.
-/

namespace DocHarvest.Shell

/-! ### Redirections -/

/-- Carries out redirections in order. A complaint stops them. -/
def redirectAll (runner : Runner) : List Redirection → State → Except (Chars × State) State
  | [], state => .ok state
  | ⟨descriptor, direction, target⟩ :: others, state =>
    let (target, state) := expandWhole runner state target
    match state.redirect descriptor direction target.chars with
    | .ok state => redirectAll runner others state
    | .error words => .error (words, state)

/-- Whether redirections change the input. -/
def takesInput (redirections : List Redirection) : Bool :=
  redirections.any fun r => r.descriptor = 0

/-! ### Assignments -/

/-- Carries out assignments in order. -/
def assignAll (runner : Runner) : List (Chars × Word) → State → State
  | [], state => state
  | (name, word) :: others, state =>
    let (value, state) := expandWhole runner state word
    assignAll runner others (state.assign name value.chars)

/-- Whether a word holds the output of commands. -/
def holdsOutput (word : Word) : Bool :=
  word.any fun part =>
    match part with
    | .output .. => true
    | _ => false

/-- Gives variables back the values they had. -/
def restoreVariables (names : List Chars) (before after : State) : State :=
  names.foldl
    (fun state name =>
      match before.get? name with
      | some value => state.assign name value
      | none => state.unset name)
    { after with exported := before.exported }

/-- The commands whose assignments and redirections outlive them. -/
def isSpecialCommand (name : Chars) : Bool :=
  [":", "break", "continue", ".", "eval", "exec", "exit", "export", "readonly", "return", "set",
    "shift", "trap", "unset"].contains (String.ofList name)

/-- A text without line ends at its end. -/
def dropLineEnds (s : Chars) : Chars :=
  (s.reverse.dropWhile (· = '\n')).reverse

/-- How the output of commands is found: they run in a shell of their own. -/
def outputOf (run : Chars → State → State × Flow) : Runner := fun source outer =>
  let (inner, _) := run source { outer with output := .inPlace, inPlace := [] }
  (dropLineEnds inner.inPlace, { inner.rejoin outer with inPlace := outer.inPlace })

/-- Whether a case's pattern matches a text. -/
def matchesAny (runner : Runner) (subject : Chars) : List Word → State → Bool × State
  | [], state => (false, state)
  | word :: words, state =>
    let (marked, state) := expandWhole runner state word
    if isMatch (pattern marked) subject then (true, state)
    else matchesAny runner subject words state

/-! ### Commands -/

mutual

/-- What a command does. The fuel bounds the number of nested and repeated steps, here and
below. -/
def execute : Nat → Command → State → State × Flow
  | 0, _, state => ({ state with status := 2 }, .exit)
  | fuel + 1, command, state =>
    let runner := outputOf (runSource fuel)
    match command with
    | .simple line assignments words redirections =>
      executeSimple line assignments words redirections fuel state
    | .sequence commands => executeAll fuel commands state
    | .subshell body =>
      let (inner, _) := execute fuel body state
      (inner.rejoin state, .next)
    | .conditional condition consequence alternative =>
      match execute fuel condition state with
      | (state, .next) =>
        if state.status = 0 then execute fuel consequence state
        else
          match alternative with
          | .sequence [] => ({ state with status := 0 }, .next)
          | _ => execute fuel alternative state
      | stopped => stopped
    | .loop negated condition body => executeLoop negated condition body 0 fuel state
    | .each name words? body =>
      let (texts, state) :=
        match words? with
        | some words => expandWords runner state words
        | none => (state.arguments, state)
      executeEach name body texts fuel { state with status := 0 }
    | .choice subject cases =>
      let (subject, state) := expandWhole runner state subject
      executeCases subject.chars cases fuel state
    | .function name body =>
      ({ state with
        functions := (name, body) :: state.functions.filter fun (other, _) => other ≠ name
        status := 0 }, .next)
    | .both first second =>
      match execute fuel first state with
      | (state, .next) => if state.status = 0 then execute fuel second state else (state, .next)
      | stopped => stopped
    | .either first second =>
      match execute fuel first state with
      | (state, .next) => if state.status = 0 then (state, .next) else execute fuel second state
      | stopped => stopped
    | .negated command =>
      match execute fuel command state with
      | (state, .next) => state.ends (if state.status = 0 then 1 else 0)
      | stopped => stopped
    | .piped first second =>
      let (inner, _) := execute fuel first { state with output := .inPlace, inPlace := [] }
      let between := { inner.rejoin state with inPlace := state.inPlace, input := inner.inPlace }
      let (inner, _) := execute fuel second between
      ({ inner.rejoin state with input := state.input }, .next)
    | .redirected line command redirections =>
      match redirectAll runner redirections state with
      | .error (words, after) => (State.complain (after.restore state true) line words 2, .next)
      | .ok inside =>
        let (after, flow) := execute fuel command inside
        (after.restore state (takesInput redirections), flow)
termination_by structural fuel => fuel

/-- What commands do one after the other. -/
def executeAll : Nat → List Command → State → State × Flow
  | 0, _, state => ({ state with status := 2 }, .exit)
  | _ + 1, [], state => (state, .next)
  | fuel + 1, command :: commands, state =>
    match execute fuel command state with
    | (state, .next) => executeAll fuel commands state
    | stopped => stopped
termination_by structural fuel => fuel

/-- What a loop does that goes on as long as a condition holds, or does not hold. -/
def executeLoop (negated : Bool) (condition body : Command) (status : Nat) :
    Nat → State → State × Flow
  | 0, state => ({ state with status := 2 }, .exit)
  | fuel + 1, state =>
    match execute fuel condition state with
    | (state, .next) =>
      if (state.status = 0) = negated then ({ state with status }, .next)
      else
        match execute fuel body state with
        | (state, .next) => executeLoop negated condition body state.status fuel state
        | (state, .again 0) => executeLoop negated condition body state.status fuel state
        | (state, .leave 0) => (state, .next)
        | (state, .again (n + 1)) => (state, .again n)
        | (state, .leave (n + 1)) => (state, .leave n)
        | stopped => stopped
    | (state, .leave 0) => (state, .next)
    | (state, .leave (n + 1)) => (state, .leave n)
    | stopped => stopped
termination_by structural fuel => fuel

/-- What a loop does that gives a variable one text after the other. -/
def executeEach (name : Chars) (body : Command) (texts : List Chars) :
    Nat → State → State × Flow
  | 0, state => ({ state with status := 2 }, .exit)
  | fuel + 1, state =>
    match texts with
    | [] => (state, .next)
    | text :: others =>
      match execute fuel body (state.assign name text) with
      | (state, .next) => executeEach name body others fuel state
      | (state, .again 0) => executeEach name body others fuel state
      | (state, .leave 0) => (state, .next)
      | (state, .again (n + 1)) => (state, .again n)
      | (state, .leave (n + 1)) => (state, .leave n)
      | stopped => stopped
termination_by structural fuel => fuel

/-- What the first case does whose pattern matches a text. -/
def executeCases (subject : Chars) (cases : List (List Word × Command)) :
    Nat → State → State × Flow
  | 0, state => ({ state with status := 2 }, .exit)
  | fuel + 1, state =>
    let runner := outputOf (runSource fuel)
    match cases with
    | [] => state.ends 0
    | (words, body) :: others =>
      match matchesAny runner subject words state with
      | (true, state) => execute fuel body { state with status := 0 }
      | (false, state) => executeCases subject others fuel state
termination_by structural fuel => fuel

/-- What a simple command does: its words are expanded, its redirections and assignments carried
out, and what it names is run. -/
def executeSimple (line : Nat) (assignments : List (Chars × Word)) (words : List Word)
    (redirections : List Redirection) : Nat → State → State × Flow
  | 0, state => ({ state with status := 2 }, .exit)
  | fuel + 1, state =>
    let runner := outputOf (runSource fuel)
    let (texts, expanded) := expandWords runner state words
    match redirectAll runner redirections expanded with
    | .error (complaint, after) =>
      let special := (texts.head?.map isSpecialCommand).getD false
      (State.complain (after.restore state true) line complaint 2,
        if special then .exit else .next)
    | .ok inside =>
      match texts with
      | [] =>
        let after := (assignAll runner assignments inside).restore state (takesInput redirections)
        let kept := assignments.any fun (_, word) => holdsOutput word
        (if kept || words.any holdsOutput then after else { after with status := 0 }, .next)
      | name :: arguments =>
        let names := assignments.map Prod.fst
        let assigned := names.foldl State.exportName (assignAll runner assignments inside)
        let (after, flow) := invoke line name arguments fuel assigned
        if isSpecialCommand name then
          let lasting := name = "exec".toList && arguments.isEmpty
          (if lasting then after else after.restore state (takesInput redirections), flow)
        else
          (restoreVariables names state (after.restore state (takesInput redirections)), flow)
termination_by structural fuel => fuel

/-- What a name and arguments do: a function, a command of the shell itself, or a program. -/
def invoke (line : Nat) (name : Chars) (arguments : List Chars) : Nat → State → State × Flow
  | 0, state => ({ state with status := 2 }, .exit)
  | fuel + 1, state =>
    match state.functions.lookup name with
    | some body =>
      let (after, flow) := execute fuel body { state with arguments }
      ({ after with arguments := state.arguments }, if flow = .back then .next else flow)
    | none =>
      match builtin? line name arguments state with
      | some done => done
      | none =>
        match String.ofList name with
        | "eval" => runSource fuel (List.intercalate [' '] arguments) state
        | "command" =>
          match arguments with
          | [] => state.ends 0
          | name :: rest => invoke line name rest fuel state
        | "exec" =>
          match arguments with
          | [] => state.ends 0
          | name :: rest =>
            let (after, _) := invoke line name rest fuel state
            (after, .exit)
        | "." =>
          match arguments with
          | [] => state.ends 0
          | path :: _ =>
            match state.tree.contents (Chars.toBytes path) with
            | .ok content =>
              let (after, flow) := runSource fuel (Chars.ofBytes content) state
              (after, if flow = .back then .next else flow)
            | .error _ =>
              (state.complain line (".: cannot open ".toList ++ path ++ ": No such file".toList) 2,
                .exit)
        | _ => startProgram line name arguments fuel state
termination_by structural fuel => fuel

/-- What a program does that a script starts. -/
def startProgram (line : Nat) (name : Chars) (arguments : List Chars) :
    Nat → State → State × Flow
  | 0, state => ({ state with status := 2 }, .exit)
  | fuel + 1, state =>
    let path? := (Program.locate state.tree state.environment (Chars.toBytes name)).toOption
    match path?, (utilityName? name).bind fun utility => utility? utility arguments state with
    | _, some after => (after, .next)
    | none, none => (state.complain line (name ++ ": not found".toList) 127, .next)
    | some path, none =>
      let script? : Except Files.Fault Bytes :=
        match Program.scriptAt state.tree path with
        | .error .badFormat => (state.tree.contents path).mapError Prod.snd
        | found => found
      match script? with
      | .error .denied => (state.complain line (name ++ ": Permission denied".toList) 126, .next)
      | .error _ => (state.complain line (name ++ ": not found".toList) 127, .next)
      | .ok content =>
        let fresh := State.start state.tree state.environment (Chars.ofBytes path) arguments
        let inside :=
          { fresh with
            input := state.input
            output := state.output
            errors := state.errors
            printed := state.printed
            inPlace := state.inPlace }
        let (inner, _) := runSource fuel (Chars.ofBytes content) inside
        (inner.rejoin state, .next)
termination_by structural fuel => fuel

/-- What the commands in a text do. -/
def runSource : Nat → Chars → State → State × Flow
  | 0, _, state => ({ state with status := 2 }, .exit)
  | fuel + 1, source, state =>
    let script := script source
    match executeAll fuel script.commands state, script.mistake? with
    | (state, .next), some mistake =>
      (state.complain mistake.line ("Syntax error: ".toList ++ mistake.words) 2, .exit)
    | done, _ => done
termination_by structural fuel => fuel

end

/-! ### Programs -/

/-- After this many nested or repeated steps a script is given up. -/
def maxSteps : Nat := 1000000

/-- What a script prints that is started as a program, its exit status, and the files it leaves. -/
def runScript (tree : Files.Tree) (env : Environment) (path : Bytes) (arguments : List Bytes)
    (script : Bytes) : Bytes × Nat × Files.Tree :=
  let start := State.start tree env (Chars.ofBytes path) (arguments.map Chars.ofBytes)
  let (state, _) := runSource maxSteps (Chars.ofBytes script) start
  (Chars.toBytes state.printed, state.status,
    { state.tree with workingDirectory := tree.workingDirectory })

end DocHarvest.Shell
