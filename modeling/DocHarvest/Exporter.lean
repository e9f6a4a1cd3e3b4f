import DocHarvest.Relay
import DocHarvest.Request
import DocHarvest.Settings
import DocHarvest.Template

/-!
# Exporting through Emacs

A document is made from the outline by Emacs in batch mode, which is told by two expressions
what to do. The exporter starts it, relays what it prints, and waits for it to end. Its exit
status says nothing here: what goes wrong shows in what it prints.

## Main definitions

* `Launcher` — how programs are started and awaited.
* `FormatterSettings.arguments` — what Emacs is called with.
* `ExportError` — why an export fails.
* `Exporter.run` — one export.
-/

namespace DocHarvest

/-- What a started program prints, and how the supply of it ends. -/
structure Printed where
  text : Bytes
  ending : Source.Ending := .complete
  deriving DecidableEq, Repr

/-- How a program that was waited for has ended. -/
inductive Exit
  | success
  | failure
  | unknown (cause : Cause)
  deriving DecidableEq, Repr

/-- A way to start programs and to wait for them, over a state of the outside world. -/
structure Launcher (σ : Type) where
  start : (command : Bytes) → (arguments : List Bytes) → σ → Except Cause Printed × σ
  wait : σ → Exit × σ

/-- Why an export fails. -/
inductive ExportError
  | notStarted (command : Bytes) (format : Format) (cause : Cause)
  | notRelayed (command : Bytes) (cause : Cause)
  | notAwaited (command : Bytes) (cause : Cause)
  | other (cause : Cause)
  deriving DecidableEq, Repr

/-- The words for a failed export. -/
def ExportError.message : ExportError → Bytes
  | notStarted command format cause =>
    utf8 "starting " ++ command ++ utf8 " for " ++ format.name ++ utf8 " export: " ++ cause.message
  | notRelayed command cause =>
    utf8 "relaying " ++ command ++ utf8 " output: " ++ cause.message
  | notAwaited command cause =>
    utf8 "waiting for " ++ command ++ utf8 ": " ++ cause.message
  | other cause => cause.message

/-- What an export failed for in the end. -/
def ExportError.cause : ExportError → Cause
  | notStarted _ _ cause | notRelayed _ cause | notAwaited _ cause | other cause => cause

namespace FormatterSettings

/-- The settings with defaults in the place of empty values. -/
def effective (settings : FormatterSettings) : FormatterSettings :=
  let orDefault (value : Bytes) (key : Key) := if value.isEmpty then key.default else value
  { command := orDefault settings.command .command
    setupEval := orDefault settings.setupEval .setupEval
    exportEval := orDefault settings.exportEval .exportEval }

/-- What Emacs is called with to export an outline to a format. -/
def arguments (settings : FormatterSettings) (format : Format) (outline : Bytes) : List Bytes :=
  [utf8 "--batch", outline,
    utf8 "--eval", settings.effective.setupEval,
    utf8 "--eval", Template.fill settings.effective.exportEval format.name]

end FormatterSettings

/-- Emacs as an exporter: how it is called, and whether all it prints is passed on. -/
structure Exporter where
  settings : FormatterSettings
  verbose : Bool
  deriving DecidableEq, Repr

/-- Exports an outline to a format. What Emacs prints goes to the writer. The program is
waited for exactly when it was started, and a failure to relay its output comes before a
failure to wait for it. -/
def Exporter.run {σ : Type} (exporter : Exporter) (launcher : Launcher σ) (format : Format)
    (outline : Bytes) (writer : Writer) (world : σ) :
    Except ExportError Unit × Writer × σ :=
  let command := exporter.settings.effective.command
  match launcher.start command (exporter.settings.arguments format outline) world with
  | (.error cause, started) => (.error (.notStarted command format cause), writer, started)
  | (.ok printed, started) =>
    let (relayed, writer') := Relay.stream exporter.verbose printed.text printed.ending writer
    let (exit, ended) := launcher.wait started
    match relayed, exit with
    | .error cause, _ => (.error (.notRelayed command cause), writer', ended)
    | .ok (), .unknown cause => (.error (.notAwaited command cause), writer', ended)
    | .ok (), _ => (.ok (), writer', ended)

end DocHarvest
