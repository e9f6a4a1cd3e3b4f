import DocHarvest.Exporter

/-!
# The Protocol of an Export

An export may fail in three places: the program does not start, its output cannot be relayed, or it
cannot be waited for. Any of them may come together with any other, and the first in this order is
the one that is reported. Whatever happens in between, a program that was started is waited for, and
only once.

A launcher is a stranger to the export that calls it, so what an export does with it is said about
its calls. A launcher can be made to keep a record of them in its own state, without any effect on
the export.

## Main definitions

* `Launcher.Call` — one call of a launcher.
* `Launcher.recorded` — a launcher that keeps a record of its calls.
* `Exporter.launch`, `Exporter.relay`, `Exporter.reported` — the steps of an export.

## Main results

* `Exporter.run_of_not_started`, `Exporter.run_of_started` — the two ways in which an export can go.
* `Exporter.run_recorded` — the calls that an export makes.
* `Exporter.run_protocol` — what is reported, what is relayed, and how often the program is waited
  for.
-/

namespace DocHarvest

variable {σ : Type}

namespace Launcher

/-- A call of a launcher. -/
inductive Call
  | start (command : Bytes) (arguments : List Bytes)
  | wait
  deriving DecidableEq, Repr

/-- A launcher that notes every call at the end of a record. -/
def recorded (launcher : Launcher σ) : Launcher (σ × List Call) where
  start command arguments := fun (world, calls) =>
    let (result, world') := launcher.start command arguments world
    (result, world', calls ++ [.start command arguments])
  wait := fun (world, calls) =>
    let (exit, world') := launcher.wait world
    (exit, world', calls ++ [.wait])

end Launcher

namespace Exporter

/-! ### The steps of an export -/

/-- The start of the program. -/
def launch (exporter : Exporter) (launcher : Launcher σ) (format : Format) (outline : Bytes)
    (world : σ) : Except Cause Printed × σ :=
  launcher.start exporter.settings.effective.command (exporter.settings.arguments format outline)
    world

/-- What becomes of the program's output. -/
def relay (exporter : Exporter) (writer : Writer) (printed : Printed) :
    Except Cause Unit × Writer :=
  Relay.stream exporter.verbose printed.text printed.ending writer

/-- What is reported about a program that was started, given how relaying its output went and how
the program has ended. -/
def reported (exporter : Exporter) : Except Cause Unit → Exit → Except ExportError Unit
  | .error cause, _ => .error (.notRelayed exporter.settings.effective.command cause)
  | .ok (), .unknown cause => .error (.notAwaited exporter.settings.effective.command cause)
  | .ok (), .success => .ok ()
  | .ok (), .failure => .ok ()

section Reported

variable {exporter : Exporter} {relayed : Except Cause Unit} {exit : Exit} {cause : Cause}

/-- A failure to relay is reported whenever there is one. -/
theorem reported_eq_notRelayed_iff :
    exporter.reported relayed exit =
        .error (.notRelayed exporter.settings.effective.command cause) ↔
      relayed = .error cause := by
  rcases relayed with cause' | ⟨⟨⟩⟩
  · simp [reported]
  · cases exit <;> simp [reported]

/-- A failure to wait is reported when there is none to relay. -/
theorem reported_eq_notAwaited_iff :
    exporter.reported relayed exit =
        .error (.notAwaited exporter.settings.effective.command cause) ↔
      relayed = .ok () ∧ exit = .unknown cause := by
  rcases relayed with cause' | ⟨⟨⟩⟩
  · simp [reported]
  · cases exit <;> simp [reported]

/-- An exit status is not reported. -/
theorem reported_eq_ok_iff :
    exporter.reported relayed exit = .ok () ↔
      relayed = .ok () ∧ (exit = .success ∨ exit = .failure) := by
  rcases relayed with cause' | ⟨⟨⟩⟩
  · simp [reported]
  · cases exit <;> simp [reported]

/-- A program that was started is not reported as one that was not. -/
theorem reported_ne_notStarted {command : Bytes} {format : Format} :
    exporter.reported relayed exit ≠ .error (.notStarted command format cause) := by
  rcases relayed with cause' | ⟨⟨⟩⟩
  · simp [reported]
  · cases exit <;> simp [reported]

end Reported

/-! ### Whole exports -/

variable {exporter : Exporter} {launcher : Launcher σ} {format : Format} {outline : Bytes}
  {world world' : σ}

/-- **An export whose program does not start** writes nothing and waits for nothing. -/
theorem run_of_not_started {cause : Cause}
    (h : exporter.launch launcher format outline world = (.error cause, world'))
    (writer : Writer) :
    exporter.run launcher format outline writer world =
      (.error (.notStarted exporter.settings.effective.command format cause), writer, world') := by
  rw [launch] at h
  simp only [run, h]

/-- **An export whose program starts** relays its output and then waits for it, whatever became of
the output. -/
theorem run_of_started {printed : Printed}
    (h : exporter.launch launcher format outline world = (.ok printed, world'))
    (writer : Writer) :
    exporter.run launcher format outline writer world =
      (exporter.reported (exporter.relay writer printed).1 (launcher.wait world').1,
        (exporter.relay writer printed).2, (launcher.wait world').2) := by
  obtain ⟨start, wait⟩ := launcher
  simp only [launch] at h
  simp only [run, h, relay]
  rcases Relay.stream exporter.verbose printed.text printed.ending writer with
    ⟨cause | ⟨⟨⟩⟩, writer'⟩
  · rfl
  · rcases wait world' with ⟨_ | _ | cause, world''⟩ <;> rfl

/-- **The calls that an export makes**: it starts the program once, and waits for it once if that
succeeded. Keeping the record has no effect on the export. -/
theorem run_recorded (exporter : Exporter) (launcher : Launcher σ) (format : Format)
    (outline : Bytes) (writer : Writer) (world : σ) (calls : List Launcher.Call) :
    let outcome := exporter.run launcher format outline writer world
    exporter.run launcher.recorded format outline writer (world, calls) =
      (outcome.1, outcome.2.1, outcome.2.2,
        calls ++ .start exporter.settings.effective.command
            (exporter.settings.arguments format outline) ::
          if (exporter.launch launcher format outline world).1.isOk then [.wait] else []) := by
  have hlaunch : ∀ result world',
      exporter.launch launcher format outline world = (result, world') →
      exporter.launch launcher.recorded format outline (world, calls) =
        (result, world', calls ++ [.start exporter.settings.effective.command
          (exporter.settings.arguments format outline)]) := by
    intro result world' h
    rw [launch] at h
    simp only [launch, Launcher.recorded, h]
  rcases h : exporter.launch launcher format outline world with ⟨cause | printed, world'⟩
  · rw [run_of_not_started h, run_of_not_started (hlaunch _ _ h)]
    rfl
  · rw [run_of_started h, run_of_started (hlaunch _ _ h)]
    simp [Launcher.recorded, Except.isOk, Except.toBool]

/-- **The protocol of an export.** The program is started once; it is waited for exactly once if it
started, and else never. A failure to start is reported exactly when there is one; a failure to
relay exactly when the program started and its output could not be relayed, even if it could not be
waited for either; a failure to wait exactly when all output was relayed and the end of the program
is not known; and nothing otherwise, whatever the exit status. What is written is what relaying
writes, however the program ends, and nothing for a program that did not start. -/
theorem run_protocol (exporter : Exporter) (launcher : Launcher σ) (format : Format)
    (outline : Bytes) (writer : Writer) (world : σ) :
    let command := exporter.settings.effective.command
    let arguments := exporter.settings.arguments format outline
    let started := launcher.start command arguments world
    let relayed := fun printed : Printed =>
      Relay.stream exporter.verbose printed.text printed.ending writer
    let exit := (launcher.wait started.2).1
    let outcome := exporter.run launcher format outline writer world
    exporter.run launcher.recorded format outline writer (world, []) =
      (outcome.1, outcome.2.1, outcome.2.2,
        .start command arguments :: if started.1.isOk then [.wait] else []) ∧
    (∀ cause, outcome.1 = .error (.notStarted command format cause) ↔
      started.1 = .error cause) ∧
    (∀ cause, outcome.1 = .error (.notRelayed command cause) ↔
      ∃ printed, started.1 = .ok printed ∧ (relayed printed).1 = .error cause) ∧
    (∀ cause, outcome.1 = .error (.notAwaited command cause) ↔
      ∃ printed, started.1 = .ok printed ∧ (relayed printed).1 = .ok () ∧
        exit = .unknown cause) ∧
    (outcome.1 = .ok () ↔
      ∃ printed, started.1 = .ok printed ∧ (relayed printed).1 = .ok () ∧
        (exit = .success ∨ exit = .failure)) ∧
    (∀ cause, started.1 = .error cause → outcome.2.1 = writer) ∧
    (∀ printed, started.1 = .ok printed → outcome.2.1 = (relayed printed).2) ∧
    (∀ cause : Cause,
      (ExportError.notStarted command format cause).message =
        utf8 "starting " ++ command ++ utf8 " for " ++ format.name ++ utf8 " export: " ++
          cause.message ∧
      (ExportError.notRelayed command cause).message =
        utf8 "relaying " ++ command ++ utf8 " output: " ++ cause.message ∧
      (ExportError.notAwaited command cause).message =
        utf8 "waiting for " ++ command ++ utf8 ": " ++ cause.message) := by
  intro command arguments started relayed exit outcome
  refine ⟨run_recorded exporter launcher format outline writer world [], ?_⟩
  rcases h : started with ⟨cause | printed, world'⟩
  · have houtcome : outcome = (.error (.notStarted command format cause), writer, world') :=
      run_of_not_started h writer
    simp [houtcome, ExportError.message]
  · have houtcome : outcome = (exporter.reported (relayed printed).1 (launcher.wait world').1,
        (relayed printed).2, (launcher.wait world').2) := run_of_started h writer
    have hexit : exit = (launcher.wait world').1 := by
      simp only [exit, h]
    rw [houtcome, ← hexit]
    refine ⟨fun cause => ?_, fun cause => ?_, fun cause => ?_, ?_, ?_, ?_, fun cause => ?_⟩
    · simp [reported_ne_notStarted]
    · simp [command, reported_eq_notRelayed_iff]
    · simp [command, reported_eq_notAwaited_iff]
    · simp [reported_eq_ok_iff]
    · simp
    · simp
    · exact ⟨rfl, rfl, rfl⟩

end Exporter

end DocHarvest
