import DocHarvest.Exporter
import DocHarvest.Shell.Execution

/-!
# Launching Scripts

A launcher for programs that are scripts. One that is started runs to its end at once, so that
waiting for it only asks for its status.

## Main definitions

* `Launcher.scripts` — the launcher of scripts in an environment.
-/

namespace DocHarvest

open Files (Tree)

namespace Launcher

/-- Starts a script in an environment, on the files and over the exit status of the one before. -/
def startScript (env : Environment) (command : Bytes) (arguments : List Bytes) :
    Tree × Nat → Except Cause Printed × Tree × Nat
  | (tree, status) =>
    match Program.locate tree env command with
    | .error cause => (.error cause, tree, status)
    | .ok path =>
      let script :=
        if (path :: arguments).any fun s => s.contains 0 then .error .invalid
        else Program.scriptAt tree path
      match script with
      | .error fault => (.error (.file .executing path fault), tree, status)
      | .ok script =>
        let (text, status', tree') := Shell.runScript tree env path arguments script
        (.ok { text }, tree', status')

/-- The launcher of scripts in an environment. Its state is the exit status of the script that was
started last. -/
def scripts (env : Environment) : Launcher (Tree × Nat) where
  start := startScript env
  wait := fun (tree, status) => (if status = 0 then .success else .failure, tree, status)

end Launcher

end DocHarvest
