import DocHarvest.Cli.Invocation
import DocHarvest.Program

/-!
# Footprints

The paths that a call of the program can look at, so that no other files have to be known
beforehand. Which program the formatter is can depend on the configuration file, so the paths
depend on the files that are known already.
-/

namespace DocHarvest

open Files (Tree)

namespace Invocation

/-- The paths at which the program with a name is searched for. -/
def programPaths (env : Environment) (command : Bytes) : List Bytes :=
  if command.contains Byte.slash then [command]
  else (Program.searchPath env).map fun directory => Program.pathIn directory command

/-- The paths that a call can look at. -/
def footprint (invocation : Invocation) (tree : Tree) : List Bytes :=
  match Options.parse invocation.arguments with
  | .error _ => []
  | .ok options =>
    let env := invocation.environment
    let settings := Config.settings env (Config.fieldsOf (Config.load tree env options.config))
    let configs := if options.config.isEmpty then Config.candidates tree env else [options.config]
    let outputs := [options.request.outlinePath, options.request.catalogPath,
      options.request.exportPath .html, options.request.exportPath .pdf]
    configs ++ options.sources ++ outputs ++ programPaths env settings.formatter.effective.command

/-- Whether a call reads standard input. -/
def readsInput (invocation : Invocation) : Bool :=
  match Options.parse invocation.arguments with
  | .error _ => false
  | .ok options =>
    options.sources.isEmpty && options.request.isNamed && !options.help && !options.version &&
      !options.showConfig

end Invocation

end DocHarvest
