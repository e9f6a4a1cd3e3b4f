import DocHarvest.Cli.Usage
import DocHarvest.Config.File
import DocHarvest.Run
import DocHarvest.Yaml.Writer

/-!
# Invocations

What the program does when it is called: from its arguments, its environment, its standard
input and the files it sees, to what it prints, the files it leaves and its exit status. Flags
are read first, then the configuration, and only then is anything run. How other programs are
started is left to a launcher, which acts on the files and on a state of its own.

## Main definitions

* `Invocation` — what the program is called with.
* `Outcome` — what calling it comes to.
* `Invocation.materials` — what a call brings to the run that it makes.
* `Invocation.outcome` — what a call comes to.
-/

namespace DocHarvest

open Files (Tree)

/-- What the program is called with. Standard input comes with the way in which its supply ends. -/
structure Invocation where
  arguments : List Bytes
  environment : Environment
  input : Bytes × Source.Ending
  deriving DecidableEq, Repr

/-- What calling the program comes to: whether it succeeds, what it prints on its two outputs,
and the files it leaves. -/
structure Outcome where
  succeeds : Bool
  output : Bytes := []
  errors : Bytes := []
  tree : Tree
  deriving DecidableEq, Repr

namespace Invocation

/-- The line for a failure. -/
def errorLine (message : Bytes) : Bytes :=
  utf8 "Error: " ++ message ++ utf8 "\n"

/-- The lines for a mistake in using the program: what is wrong and how it is used. -/
def usageLines (message : Bytes) : Bytes :=
  errorLine message ++ usage ++ utf8 "\n"

/-- The line that names the configuration file in use. -/
def configLine : Except ConfigError (Bytes × Fields) → Bytes
  | .ok (path, _) => utf8 "Using config file: " ++ path ++ utf8 "\n"
  | .error _ => []

/-- The line that sums up a run. -/
def summaryLine (tally : Tally) : Bytes :=
  utf8 programName ++ utf8 ": " ++ decimalNat tally.units ++
    utf8 " documentation string(s) from " ++ decimalNat tally.sources ++ utf8 " source(s), " ++
    decimalNat tally.exports ++ utf8 " export(s)\n"

variable {σ : Type}

/-- The formatter that has the exporter's program launched. What the program prints goes to a
writer. -/
def formatter (launcher : Launcher (Tree × σ)) (exporter : Exporter) : Formatter (Writer × σ) :=
  fun format outline (tree, writer, state) =>
    let (result, writer', tree', state') :=
      exporter.run launcher format outline writer (tree, state)
    (result, tree', writer', state')

/-- What a call brings to the run that it makes. -/
def materials (launcher : Launcher (Tree × σ)) (invocation : Invocation) (options : Options)
    (settings : Settings) : Run.Materials (Writer × σ) where
  sources := options.sources
  input? := some invocation.input
  header := settings.catalog
  formatter? :=
    some (formatter launcher { settings := settings.formatter, verbose := options.verbose })

/-- Runs what the options ask for. -/
def extract (launcher : Launcher (Tree × σ)) (invocation : Invocation) (options : Options)
    (settings : Settings) (tree : Tree) (state : σ) : Outcome × σ :=
  match run options.request (invocation.materials launcher options settings) tree ({}, state) with
  | (.error error, _, tree', writer, state') =>
    ({ succeeds := false, errors := writer.written ++ errorLine error.message, tree := tree' },
      state')
  | (.ok (), tally, tree', writer, state') =>
    ({ succeeds := true
       errors := writer.written ++ (if options.verbose then summaryLine tally else [])
       tree := tree' },
      state')

/-- What a call comes to when its flags have been read and neither help nor version is asked
for. -/
def configured (launcher : Launcher (Tree × σ)) (invocation : Invocation) (options : Options)
    (tree : Tree) (state : σ) : Outcome × σ :=
  let loaded := Config.load tree invocation.environment options.config
  let settings := Config.settings invocation.environment (Config.fieldsOf loaded)
  let (outcome, state') : Outcome × σ :=
    if options.showConfig then
      ({ succeeds := true, output := utf8Chars settings.yaml, tree }, state)
    else if !options.request.isNamed then
      ({ succeeds := false, errors := usageLines RunError.unnamed.message, tree }, state)
    else invocation.extract launcher options settings tree state
  ({ outcome with errors := configLine loaded ++ outcome.errors }, state')

/-- What a call comes to, and the state that it leaves the launcher in. -/
def outcome (launcher : Launcher (Tree × σ)) (invocation : Invocation) (tree : Tree) (state : σ) :
    Outcome × σ :=
  match Options.parse invocation.arguments with
  | .error error => ({ succeeds := false, errors := usageLines error.message, tree }, state)
  | .ok options =>
    if options.help then ({ succeeds := true, output := helpText, tree }, state)
    else if options.version then ({ succeeds := true, output := versionText, tree }, state)
    else invocation.configured launcher options tree state

end Invocation

end DocHarvest
