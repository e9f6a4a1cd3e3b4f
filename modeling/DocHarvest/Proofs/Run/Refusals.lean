import DocHarvest.Cli.Invocation
import DocHarvest.Proofs.Exporter.Protocol
import DocHarvest.Proofs.Run.Exports

/-!
# Calls That Touch Nothing

A run can be refused before it does anything: because its outputs have no name, because an outline
that nobody asked for is in the way or cannot be inspected, or because there is no formatter for the
documents that are wanted. The first of these reasons is the one that is reported, and a run that is
refused leaves the files alone, calls no formatter and opens no source. A run that is not refused
goes on to its outputs and its sources.

What is opened only to be read leaves no trace in the files. But whatever is wrong with a source is
reported as soon as it is opened, so a run that opens its sources depends on them. "No source is
opened" therefore says that the run goes the same way whatever its sources are, and whether they can
be opened at all.

The same is said of the calls of the program that only show something, that give no name to the
outputs or that find something in the place of an outline which nobody asked for. Such a call starts
no program, reads nothing from standard input, and depends on no file but the configuration.

## Main definitions

* `Run.Refuses` — the reasons to refuse a run, in their order.
* `Run.OpensNoSource`, `Run.TouchesNothing` — what a refused run leaves alone.
* `Invocation.Idle` — the calls that have nothing to do or are refused.
* `Invocation.launches` — the programs that a call starts and waits for.
* `Invocation.TouchesNothing` — what such a call leaves alone.

## Main results

* `Run.refuses_iff` — the reasons to refuse a run are those that it checks.
* `Run.not_isRefusal` — a run that is not refused ends in another way.
* `Run.not_opensNoSource` — a run that is not refused opens its sources.
* `Invocation.exists_report` — what an idle call prints is settled by its configuration.
* `refused_touch_nothing` — refused runs, and calls of the program, that touch nothing.
-/

namespace DocHarvest

open Files (Tree)

/-- The errors that a run is refused with. -/
def RunError.IsRefusal : RunError → Prop
  | unnamed | outlineExists _ | unchecked _ _ | noFormatter => True
  | output _ | noReader _ | notOpened _ _ | endless _ | scan _ _ | exporting _
  | outlineNotRemoved _ => False

/-- A document is wanted, and with it an outline. -/
def Request.WantsDocument (request : Request) : Prop :=
  request.html = true ∨ request.pdf = true

/-- Formats are exported to exactly when a document is wanted. -/
theorem Request.exports_ne_nil_iff {request : Request} :
    request.exports ≠ [] ↔ request.WantsDocument := by
  unfold exports WantsDocument
  cases request.html <;> cases request.pdf <;> simp

/-- The outline is an intermediate when a document is wanted without it. -/
theorem Request.outlineIsIntermediate_iff {request : Request} :
    request.outlineIsIntermediate = true ↔
      request.WantsDocument ∧ request.outline = false := by
  unfold outlineIsIntermediate needsOutline WantsDocument
  cases request.html <;> cases request.pdf <;> cases request.outline <;> simp

namespace Run

variable {σ τ : Type} {request : Request} {materials : Materials σ} {tree : Tree} {state : σ}
  {error : RunError}

/-! ### Reasons to refuse a run -/

/-- **The reasons to refuse a run**, each of them for want of the ones before it: the outputs have
no name; a document is wanted without its outline, and the outline exists, or cannot be inspected
for another reason than that it is missing; a document is wanted, and there is no formatter. -/
inductive Refuses (request : Request) (materials : Materials σ) (tree : Tree) : RunError → Prop
  | unnamed : request.stem = [] → Refuses request materials tree .unnamed
  | outlineExists {entry : Files.Entry} : request.stem ≠ [] → request.WantsDocument →
      request.outline = false → tree.inspect request.outlinePath = .ok entry →
      Refuses request materials tree (.outlineExists request.outlinePath)
  | unchecked {fault : Files.Fault} : request.stem ≠ [] → request.WantsDocument →
      request.outline = false → tree.inspect request.outlinePath = .error fault →
      fault ≠ .missing →
      Refuses request materials tree
        (.unchecked request.outlinePath (.file .inspecting request.outlinePath fault))
  | noFormatter : request.stem ≠ [] → request.WantsDocument →
      (request.outline = false → tree.inspect request.outlinePath = .error .missing) →
      materials.formatter? = none → Refuses request materials tree .noFormatter

/-- The outputs have a name when the stem is not empty. -/
theorem isNamed_iff : request.isNamed = true ↔ request.stem ≠ [] := by
  simp [Request.isNamed]

/-- The check fails for the first reason that there is. -/
theorem refuses_of_check_error (h : check request tree = .error error)
    (materials : Materials σ) : Refuses request materials tree error := by
  unfold check at h
  dsimp only at h
  split at h
  · obtain rfl := Except.error.inj h
    next hunnamed => exact .unnamed (by simpa [Request.isNamed] using hunnamed)
  next hnamed =>
  have hstem : request.stem ≠ [] := isNamed_iff.mp (by simpa using hnamed)
  split at h
  · cases h
  next hintermediate =>
  obtain ⟨hwants, houtline⟩ := Request.outlineIsIntermediate_iff.mp (by simpa using hintermediate)
  split at h
  · next entry hentry =>
    obtain rfl := Except.error.inj h
    exact .outlineExists hstem hwants houtline hentry
  · cases h
  · next fault hmissing hfault =>
    obtain rfl := Except.error.inj h
    exact .unchecked hstem hwants houtline hfault hmissing

/-- **A run is refused for what it checks**: the check fails, or it passes and the formatter for the
documents is missing. -/
theorem refuses_iff :
    Refuses request materials tree error ↔
      check request tree = .error error ∨
      check request tree = .ok () ∧ request.exports ≠ [] ∧ materials.formatter? = none ∧
        error = .noFormatter := by
  constructor
  · intro h
    cases h with
    | unnamed hstem => exact .inl (by simp [check, Request.isNamed, hstem])
    | outlineExists hstem hwants houtline hentry =>
      have hintermediate := Request.outlineIsIntermediate_iff.mpr ⟨hwants, houtline⟩
      exact .inl (by simp [check, isNamed_iff.mpr hstem, hintermediate, hentry])
    | @unchecked fault hstem hwants houtline hfault hmissing =>
      have hintermediate := Request.outlineIsIntermediate_iff.mpr ⟨hwants, houtline⟩
      refine .inl ?_
      cases fault with
      | missing => exact absurd rfl hmissing
      | _ => simp [check, isNamed_iff.mpr hstem, hintermediate, hfault]
    | noFormatter hstem hwants hinspect hnone =>
      refine .inr ⟨check_eq_ok_iff.mpr ⟨isNamed_iff.mpr hstem, fun hintermediate => ?_⟩,
        Request.exports_ne_nil_iff.mpr hwants, hnone, rfl⟩
      exact hinspect (Request.outlineIsIntermediate_iff.mp hintermediate).2
  · rintro (hcheck | ⟨hcheck, hexports, hnone, rfl⟩)
    · exact refuses_of_check_error hcheck materials
    · obtain ⟨hnamed, hinspect⟩ := check_eq_ok_iff.mp hcheck
      have hwants := Request.exports_ne_nil_iff.mp hexports
      refine .noFormatter (isNamed_iff.mp hnamed) hwants (fun houtline => ?_) hnone
      exact hinspect (Request.outlineIsIntermediate_iff.mpr ⟨hwants, houtline⟩)

/-- Of the materials, only the presence of a formatter matters. -/
theorem Refuses.of_formatter {materials' : Materials τ} (h : Refuses request materials tree error)
    (hformatter : materials.formatter? = none → materials'.formatter? = none) :
    Refuses request materials' tree error := by
  rw [refuses_iff] at h ⊢
  exact h.imp_right fun ⟨hcheck, hexports, hnone, herror⟩ =>
    ⟨hcheck, hexports, hformatter hnone, herror⟩

/-- A run that is not refused has passed its checks. -/
theorem passed_of_not_refuses (h : ∀ error, ¬Refuses request materials tree error) :
    check request tree = .ok () ∧ (request.exports ≠ [] → materials.formatter?.isSome) := by
  have hcheck : check request tree = .ok () := by
    cases hcheck : check request tree with
    | ok done => rfl
    | error error => exact absurd (refuses_of_check_error hcheck materials) (h error)
  refine ⟨hcheck, fun hexports => Option.isSome_iff_ne_none.mpr fun hnone => ?_⟩
  exact h .noFormatter (refuses_iff.mpr (.inr ⟨hcheck, hexports, hnone, rfl⟩))

/-! ### Refused runs -/

/-- **A refused run** ends with the reason, and leaves everything as it was. -/
theorem Refuses.run_eq (h : Refuses request materials tree error) (state : σ) :
    run request materials tree state = (.error error, {}, tree, state) := by
  obtain hcheck | ⟨hcheck, hexports, hnone, rfl⟩ := refuses_iff.mp h
  · exact run_of_check_error hcheck materials state
  · have hempty : request.exports.isEmpty = false := List.isEmpty_eq_false_iff.mpr hexports
    simp only [run, hcheck, hempty, hnone]

/-- No source is opened: the run goes the same way whatever its sources are. -/
def OpensNoSource (request : Request) (materials : Materials σ) (tree : Tree) (state : σ) : Prop :=
  ∀ sources input?,
    run request { materials with sources, input? } tree state = run request materials tree state

/-- What a run leaves alone that touches nothing: the files, the formatter, with all that is known
to it, and the sources. -/
structure TouchesNothing (request : Request) (materials : Materials σ) (tree : Tree) (state : σ) :
    Prop where
  files : (run request materials tree state).2.2.1 = tree
  formatter : calls request materials tree state = []
  known : (run request materials tree state).2.2.2 = state
  sources : OpensNoSource request materials tree state

/-- **A refused run touches nothing.** -/
theorem Refuses.touchesNothing (h : Refuses request materials tree error) (state : σ) :
    TouchesNothing request materials tree state where
  files := by rw [h.run_eq]
  known := by rw [h.run_eq]
  formatter := by
    have hrecorded : Refuses request materials.recorded tree error :=
      h.of_formatter fun hnone => by rw [Materials.recorded, hnone, Option.map_none]
    rw [calls, hrecorded.run_eq]
  sources := by
    intro sources input?
    have hother : Refuses request { materials with sources, input? } tree error :=
      h.of_formatter id
    rw [h.run_eq, hother.run_eq]

/-! ### Runs that are not refused -/

/-- What goes wrong with a source is no refusal. -/
theorem extract_error {source : Source} {outputs outputs' : Outputs} {tree' : Tree}
    (h : extract source outputs tree = (.error error, outputs', tree')) : ¬error.IsRefusal := by
  unfold extract at h
  dsimp only at h
  split at h
  · cases h
    exact id
  · cases h
    exact id
  · cases h

/-- What goes wrong with an outline that grows while it is read is no refusal. -/
theorem extractGrowing_error {name : Bytes} {fuel count : Nat} {scanner : Source.Scanner}
    {outputs outputs' : Outputs} {tree' : Tree}
    (h : extractGrowing name fuel scanner count outputs tree = (.error error, outputs', tree')) :
    ¬error.IsRefusal := by
  induction fuel generalizing scanner count outputs tree with
  | zero => cases h
  | succ fuel ih =>
    unfold extractGrowing at h
    split at h
    · cases h
      exact id
    split at h
    · cases h
    split at h
    · exact ih h
    split at h
    · cases h
      exact id
    · exact ih h

/-- What goes wrong with a file is no refusal, whether it cannot be opened or has no end. -/
theorem extractFile_error {path : Bytes} {outputs outputs' : Outputs} {tree' : Tree}
    (h : extractFile path outputs tree = (.error error, outputs', tree')) :
    ¬error.IsRefusal := by
  unfold extractFile at h
  split at h
  · cases h
    exact id
  split at h
  · cases h
    exact id
  split at h
  · exact extractGrowing_error h
  · exact extract_error h

/-- What goes wrong with one of the files is no refusal. -/
theorem extractFiles_error {paths : List Bytes} {tally tally' : Tally} {outputs outputs' : Outputs}
    {tree' : Tree}
    (h : extractFiles paths tally outputs tree = (.error error, tally', outputs', tree')) :
    ¬error.IsRefusal := by
  induction paths generalizing tally outputs tree with
  | nil => cases h
  | cons path others ih =>
    unfold extractFiles at h
    split at h
    · next hfile =>
      cases h
      exact extractFile_error hfile
    · exact ih h

/-- What goes wrong with the sources is no refusal. -/
theorem extractAll_error {paths : List Bytes} {input? : Option (Bytes × Source.Ending)}
    {tally : Tally}
    {outputs outputs' : Outputs} {tree' : Tree}
    (h : extractAll paths input? outputs tree = (.error error, tally, outputs', tree')) :
    ¬error.IsRefusal := by
  unfold extractAll at h
  split at h
  · split at h
    · next hinput =>
      cases h
      unfold extractInput at hinput
      split at hinput
      · cases hinput
        exact id
      · exact extract_error hinput
    · cases h
  · exact extractFiles_error h

/-- What goes wrong with a document is no refusal. -/
theorem exportAll_error {formatter : Formatter σ} {outline : Bytes} {formats : List Format}
    {tally tally' : Tally} {world world' : Tree × σ}
    (h : exportAll formatter outline formats tally world = (.error error, tally', world')) :
    ¬error.IsRefusal := by
  induction formats generalizing tally world with
  | nil => cases h
  | cons format others ih =>
    unfold exportAll at h
    split at h
    · cases h
      exact id
    · exact ih h

/-- An intermediate outline that cannot be removed is no refusal. -/
theorem removeIntermediate_error (h : removeIntermediate request tree = .error error) :
    ¬error.IsRefusal := by
  unfold removeIntermediate at h
  split at h
  · split at h
    · cases h
    · cases h
      exact id
  · cases h

/-- A run that passes its checks and cannot open its outputs ends there. -/
theorem run_of_start_error {outputError : OutputError} (hcheck : check request tree = .ok ())
    (hformatter : request.exports ≠ [] → materials.formatter?.isSome)
    (hstart : Outputs.start request materials.header tree = .error outputError) (state : σ) :
    run request materials tree state = (.error (.output outputError), {}, tree, state) := by
  unfold run
  split
  · rename_i herror
    cases hcheck.symm.trans herror
  · rename_i hempty hnone
    simp [hnone, List.isEmpty_eq_false_iff.mp hempty] at hformatter
  · simp only [hstart]

/-- **A run that is not refused** ends in another way. -/
theorem not_isRefusal (h : ∀ error, ¬Refuses request materials tree error)
    (hrun : (run request materials tree state).1 = .error error) : ¬error.IsRefusal := by
  obtain ⟨hcheck, hformatter⟩ := passed_of_not_refuses h
  unfold run at hrun
  split at hrun
  · rename_i herror
    cases hcheck.symm.trans herror
  · rename_i hempty hnone
    simp [hnone, List.isEmpty_eq_false_iff.mp hempty] at hformatter
  split at hrun
  · cases hrun
    exact id
  split at hrun
  · next hextract =>
    cases hrun
    exact extractAll_error hextract
  split at hrun
  · cases hrun
    exact id
  dsimp only at hrun
  split at hrun
  · next hexport =>
    cases hrun
    exact exportAll_error hexport
  split at hrun
  · next hremove =>
    cases hrun
    exact removeIntermediate_error hremove
  · cases hrun

/-- **A run that is not refused opens its sources**, if its outputs can be opened: a source that
cannot be opened, such as one with an empty path, and a standard input that is not there, are
reported, each in its own way. -/
theorem not_opensNoSource {opened : Outputs × Tree}
    (h : ∀ error, ¬Refuses request materials tree error)
    (hstart : Outputs.start request materials.header tree = .ok opened) :
    ¬OpensNoSource request materials tree state := by
  intro hopens
  obtain ⟨hcheck, hformatter⟩ := passed_of_not_refuses h
  have hextracts : ∀ sources input? error,
      extractAll sources input? opened.1 opened.2 = (.error error, {}, opened) →
      run request materials tree state = (.error error, {}, opened.2, state) := by
    intro sources input? error hextract
    rw [← hopens sources input?]
    exact @run_of_extractAll_error σ request { materials with sources, input? } _ _ _ _ _ _ _ hcheck
      hformatter hstart hextract state
  have hfile := hextracts [[]] none (.notOpened [] (.file .opening [] .missing)) rfl
  have hinput := hextracts [] none (.noReader standardInput) rfl
  cases hfile.symm.trans hinput

end Run

/-! ### Calls of the program -/

namespace Run

variable {σ : Type} {request : Request} {tree : Tree}

/-- An outline that nobody asked for is in the way, and how it is so depends on nothing but what
becomes of its inspection. -/
theorem exists_refuses (hstem : request.stem ≠ []) (hwants : request.WantsDocument)
    (houtline : request.outline = false)
    (hinspect : tree.inspect request.outlinePath ≠ .error .missing) :
    ∃ error, ∀ {τ : Type} (materials : Materials τ) (tree' : Tree),
      (tree'.inspect request.outlinePath).map (fun _ => ()) =
          (tree.inspect request.outlinePath).map (fun _ => ()) →
        Refuses request materials tree' error := by
  cases hfound : tree.inspect request.outlinePath with
  | ok entry =>
    refine ⟨.outlineExists request.outlinePath, fun materials tree' hsame => ?_⟩
    cases hfound' : tree'.inspect request.outlinePath with
    | ok entry' => exact .outlineExists hstem hwants houtline hfound'
    | error fault => simp [hfound', Except.map] at hsame
  | error fault =>
    refine ⟨.unchecked request.outlinePath (.file .inspecting request.outlinePath fault),
      fun materials tree' hsame => ?_⟩
    cases hfound' : tree'.inspect request.outlinePath with
    | ok entry => simp [hfound', Except.map] at hsame
    | error fault' =>
      obtain rfl : fault' = fault := by simpa [hfound', Except.map] using hsame
      exact .unchecked hstem hwants houtline hfound' fun hmissing =>
        hinspect (by rw [hfound, hmissing])

end Run

/-- A launcher over the files that notes every call at the end of a record. -/
def Launcher.noting {σ : Type} (launcher : Launcher (Tree × σ)) :
    Launcher (Tree × σ × List Launcher.Call) where
  start command arguments := fun (tree, state, calls) =>
    let (result, (tree', state'), calls') :=
      launcher.recorded.start command arguments ((tree, state), calls)
    (result, tree', state', calls')
  wait := fun (tree, state, calls) =>
    let (exit, (tree', state'), calls') := launcher.recorded.wait ((tree, state), calls)
    (exit, tree', state', calls')

namespace Invocation

variable {σ : Type} {invocation : Invocation} {options : Options} {tree : Tree}

/-- **The calls that have nothing to do or are refused**: they only show something; they give no
name to the outputs; or they want a document without its outline, and the outline can be
inspected, or cannot be for another reason than that it is missing. -/
inductive Idle (options : Options) (tree : Tree) : Prop
  | help : options.help = true → Idle options tree
  | version : options.version = true → Idle options tree
  | showConfig : options.showConfig = true → Idle options tree
  | unnamed : options.request.stem = [] → Idle options tree
  | inTheWay : options.request.WantsDocument → options.request.outline = false →
      tree.inspect options.request.outlinePath ≠ .error .missing → Idle options tree

/-- The files show a call the same configuration, and the same in the place of the outline, as far
as it looks for these at all. Nothing is said about any other file. -/
def LooksAlike (invocation : Invocation) (tree tree' : Tree) : Prop :=
  ∀ options, Options.parse invocation.arguments = .ok options →
    options.help = false → options.version = false →
      Config.load tree' invocation.environment options.config =
          Config.load tree invocation.environment options.config ∧
        (options.showConfig = false → options.request.stem ≠ [] →
          (tree'.inspect options.request.outlinePath).map (fun _ => ()) =
            (tree.inspect options.request.outlinePath).map (fun _ => ()))

/-- The programs that a call starts and waits for. -/
def launches (launcher : Launcher (Tree × σ)) (invocation : Invocation) (tree : Tree) (state : σ) :
    List Launcher.Call :=
  (invocation.outcome launcher.noting tree (state, [])).2.2

/-- **What a call leaves alone that touches nothing**: the files; the launcher, which is asked for
nothing and keeps its state; standard input, which may be any; and all files but the
configuration, which may hold anything or be missing. In particular no source is opened. -/
structure TouchesNothing (launcher : Launcher (Tree × σ)) (invocation : Invocation) (tree : Tree)
    (state : σ) : Prop where
  files : (invocation.outcome launcher tree state).1.tree = tree
  launched : invocation.launches launcher tree state = []
  known : (invocation.outcome launcher tree state).2 = state
  input : ∀ input, { invocation with input }.outcome launcher tree state =
    invocation.outcome launcher tree state
  sources : ∀ tree', invocation.LooksAlike tree tree' →
    invocation.outcome launcher tree' state =
      ({ (invocation.outcome launcher tree state).1 with tree := tree' }, state)

/-- The settings that a call finds. -/
def settings (invocation : Invocation) (options : Options) (tree : Tree) : Settings :=
  Config.settings invocation.environment
    (Config.fieldsOf (Config.load tree invocation.environment options.config))

section Configured

variable (invocation) (tree) (launcher : Launcher (Tree × σ)) (state : σ)

/-- A call that shows the settings prints them. -/
theorem configured_of_showConfig (hshow : options.showConfig = true) :
    invocation.configured launcher options tree state =
      ({ succeeds := true
         output := utf8Chars (invocation.settings options tree).yaml
         errors := configLine (Config.load tree invocation.environment options.config)
         tree }, state) := by
  simp [configured, hshow, settings]

/-- A call that gives no name to the outputs is told how the program is used. -/
theorem configured_of_unnamed (hshow : options.showConfig = false)
    (hstem : options.request.stem = []) :
    invocation.configured launcher options tree state =
      ({ succeeds := false
         errors := configLine (Config.load tree invocation.environment options.config) ++
           usageLines RunError.unnamed.message
         tree }, state) := by
  have hunnamed : options.request.isNamed = false := by simp [Request.isNamed, hstem]
  simp [configured, hshow, hunnamed]

/-- A call whose run is refused ends with the reason. -/
theorem configured_of_refuses {error : RunError} (hshow : options.showConfig = false)
    (hstem : options.request.stem ≠ [])
    (h : Run.Refuses options.request
      (invocation.materials launcher options (invocation.settings options tree)) tree error) :
    invocation.configured launcher options tree state =
      ({ succeeds := false
         errors := configLine (Config.load tree invocation.environment options.config) ++
           errorLine error.message
         tree }, state) := by
  have hnamed : options.request.isNamed = true := Run.isNamed_iff.mpr hstem
  have hrun := h.run_eq ({}, state)
  rw [settings] at hrun
  simp [configured, hshow, hnamed, extract, hrun, Writer.written]

end Configured

/-- **What an idle call prints**, and whether it succeeds, is settled by its arguments, its
configuration and what becomes of the inspection of the outline. -/
theorem exists_report (h : ∀ options, Options.parse invocation.arguments = .ok options →
      Idle options tree) :
    ∃ succeeds output errors, ∀ {τ : Type} (launcher : Launcher (Tree × τ)) input tree' state,
      invocation.LooksAlike tree tree' →
        { invocation with input }.outcome launcher tree' state =
          ({ succeeds, output, errors, tree := tree' }, state) := by
  cases hparse : Options.parse invocation.arguments with
  | error error =>
    exact ⟨false, [], usageLines error.message, fun launcher input tree' state _ => by
      simp only [outcome, hparse]⟩
  | ok options =>
    cases hhelp : options.help with
    | true =>
      exact ⟨true, helpText, [], fun launcher input tree' state _ => by
        simp [outcome, hparse, hhelp]⟩
    | false =>
    cases hversion : options.version with
    | true =>
      exact ⟨true, versionText, [], fun launcher input tree' state _ => by
        simp [outcome, hparse, hhelp, hversion]⟩
    | false =>
    have hconfigured : ∀ {τ : Type} (launcher : Launcher (Tree × τ)) input tree' state,
        { invocation with input }.outcome launcher tree' state =
          { invocation with input }.configured launcher options tree' state := by
      intro τ launcher input tree' state
      simp [outcome, hparse, hhelp, hversion]
    cases hshow : options.showConfig with
    | true =>
      refine ⟨true, utf8Chars (invocation.settings options tree).yaml,
        configLine (Config.load tree invocation.environment options.config),
        fun launcher input tree' state halike => ?_⟩
      rw [hconfigured, configured_of_showConfig _ tree' launcher state hshow, settings, settings,
        (halike options hparse hhelp hversion).1]
    | false =>
    by_cases hstem : options.request.stem = []
    · refine ⟨false, [], configLine (Config.load tree invocation.environment options.config) ++
        usageLines RunError.unnamed.message, fun launcher input tree' state halike => ?_⟩
      rw [hconfigured, configured_of_unnamed _ tree' launcher state hshow hstem,
        (halike options hparse hhelp hversion).1]
    · obtain ⟨hwants, houtline, hinspect⟩ : options.request.WantsDocument ∧
          options.request.outline = false ∧
          tree.inspect options.request.outlinePath ≠ .error .missing := by
        cases h options hparse with
        | help hon => simp [hon] at hhelp
        | version hon => simp [hon] at hversion
        | showConfig hon => simp [hon] at hshow
        | unnamed hempty => exact absurd hempty hstem
        | inTheWay hwants houtline hinspect => exact ⟨hwants, houtline, hinspect⟩
      obtain ⟨error, hrefuses⟩ := Run.exists_refuses hstem hwants houtline hinspect
      refine ⟨false, [], configLine (Config.load tree invocation.environment options.config) ++
        errorLine error.message, fun launcher input tree' state halike => ?_⟩
      obtain ⟨hload, hsame⟩ := halike options hparse hhelp hversion
      rw [hconfigured, configured_of_refuses _ tree' launcher state hshow hstem
        (hrefuses _ tree' (hsame hshow hstem)), hload]

/-- The files show a call what they show it. -/
theorem LooksAlike.refl (invocation : Invocation) (tree : Tree) :
    invocation.LooksAlike tree tree :=
  fun _ _ _ _ => ⟨rfl, fun _ _ => rfl⟩

/-- **An idle call touches nothing.** -/
theorem touchesNothing (h : ∀ options, Options.parse invocation.arguments = .ok options →
      Idle options tree) (launcher : Launcher (Tree × σ)) (state : σ) :
    invocation.TouchesNothing launcher tree state := by
  obtain ⟨succeeds, output, errors, hreport⟩ := exists_report h
  have houtcome : invocation.outcome launcher tree state =
      ({ succeeds, output, errors, tree }, state) :=
    hreport launcher invocation.input tree state (.refl invocation tree)
  refine ⟨by rw [houtcome], ?_, by rw [houtcome], fun input => ?_, fun tree' halike => ?_⟩
  · have hnoted : invocation.outcome launcher.noting tree (state, []) =
        ({ succeeds, output, errors, tree }, state, []) :=
      hreport launcher.noting invocation.input tree (state, []) (.refl invocation tree)
    rw [launches, hnoted]
  · rw [houtcome]
    exact hreport launcher input tree state (.refl invocation tree)
  · rw [houtcome]
    exact hreport launcher invocation.input tree' state halike

/-- **A call with something to do** comes to what its run comes to. -/
theorem outcome_of_run (hparse : Options.parse invocation.arguments = .ok options)
    (hhelp : options.help = false) (hversion : options.version = false)
    (hshow : options.showConfig = false) (hstem : options.request.stem ≠ [])
    (launcher : Launcher (Tree × σ)) (state : σ) {result : Except RunError Unit} {tally : Tally}
    {tree' : Tree} {writer : Writer} {state' : σ}
    (hrun : run options.request
      (invocation.materials launcher options (invocation.settings options tree)) tree ({}, state) =
        (result, tally, tree', writer, state')) :
    (invocation.outcome launcher tree state).1.tree = tree' ∧
      (invocation.outcome launcher tree state).1.succeeds = result.isOk ∧
      (invocation.outcome launcher tree state).2 = state' := by
  have hnamed : options.request.isNamed = true := Run.isNamed_iff.mpr hstem
  rw [settings] at hrun
  rcases result with error | ⟨⟨⟩⟩ <;>
    simp [outcome, hparse, hhelp, hversion, configured, hshow, hnamed, extract, hrun,
      Except.isOk, Except.toBool]

end Invocation

/-- **Refused runs touch nothing, and neither do calls of the program that are refused or that only
show something.** A run that is refused ends with the first reason there is and with an empty tally;
files, formatter and sources are left alone. A run for which there is no such reason never ends with
one of these errors; it goes on to its outputs, and when these can be opened, to its sources.

A call of the program that is asked to show the settings, that gives no name to the outputs, or that
has an outline in its way touches nothing either, whatever the files, the environment, the launcher
and the other arguments are, and whether or not these make sense: the files are as they were, no
program is started, and the call comes to the same for every standard input and for all files with
the same configuration and the same in the place of the outline. Any other call comes to what its
run comes to. -/
theorem refused_touch_nothing :
    (∀ {σ : Type} (request : Request) (materials : Run.Materials σ) (tree : Tree) (state : σ),
      (∀ error, Run.Refuses request materials tree error →
        run request materials tree state = (.error error, {}, tree, state) ∧
          Run.TouchesNothing request materials tree state) ∧
      ((∀ error, ¬Run.Refuses request materials tree error) →
        (∀ error, (run request materials tree state).1 = .error error → ¬error.IsRefusal) ∧
        (∀ error, Outputs.start request materials.header tree = .error error →
          run request materials tree state = (.error (.output error), {}, tree, state)) ∧
        (∀ opened, Outputs.start request materials.header tree = .ok opened →
          ¬Run.OpensNoSource request materials tree state))) ∧
    (∀ {σ : Type} (launcher : Launcher (Tree × σ)) (invocation : Invocation) (tree : Tree)
      (state : σ),
      ((∀ options, Options.parse invocation.arguments = .ok options →
          Invocation.Idle options tree) →
        invocation.TouchesNothing launcher tree state) ∧
      (∀ options, Options.parse invocation.arguments = .ok options →
        ¬Invocation.Idle options tree →
        ∀ result tally tree' writer state',
          run options.request
              (invocation.materials launcher options (invocation.settings options tree)) tree
              ({}, state) = (result, tally, tree', writer, state') →
            (invocation.outcome launcher tree state).1.tree = tree' ∧
              (invocation.outcome launcher tree state).1.succeeds = result.isOk ∧
              (invocation.outcome launcher tree state).2 = state')) := by
  refine ⟨?_, fun launcher invocation tree state => ⟨?_, ?_⟩⟩
  · intro σ request materials tree state
    refine ⟨fun error hrefuses => ?_, fun hpasses => ⟨?_, ?_, ?_⟩⟩
    · exact ⟨hrefuses.run_eq state, hrefuses.touchesNothing state⟩
    · exact fun error => Run.not_isRefusal hpasses
    · intro error hstart
      obtain ⟨hcheck, hformatter⟩ := Run.passed_of_not_refuses hpasses
      exact Run.run_of_start_error hcheck hformatter hstart state
    · exact fun opened => Run.not_opensNoSource hpasses
  · exact fun hidle => Invocation.touchesNothing hidle launcher state
  · intro options hparse hbusy result tally tree' writer state' hrun
    refine Invocation.outcome_of_run hparse ?_ ?_ ?_ ?_ launcher state hrun
    · exact Bool.eq_false_iff.mpr fun hon => hbusy (.help hon)
    · exact Bool.eq_false_iff.mpr fun hon => hbusy (.version hon)
    · exact Bool.eq_false_iff.mpr fun hon => hbusy (.showConfig hon)
    · exact fun hempty => hbusy (.unnamed hempty)

namespace Invocation.Sample

/-- A call for a document from a source that is not there, and nothing else. -/
def call : Invocation where
  arguments := [utf8 "-hc", utf8 "x", utf8 "gone.py"]
  environment := []
  input := ([], .complete)

/-- What the arguments of the call say. -/
def options : Options where
  html := true
  stem := utf8 "x"
  sources := [utf8 "gone.py"]

/-- Files with an outline in the way. -/
def tree : Tree where
  entries := [([utf8 "x.org"], .file (utf8 "mine") false)]

/-- The same files, and the source beside them. -/
def found : Tree where
  entries := ([utf8 "gone.py"], .file (utf8 "\"\"\"one\"\"\"\n") false) :: tree.entries

/-- A launcher that starts any program and counts how many. -/
def counter : Launcher (Tree × Nat) where
  start _ _ := fun (tree, started) => (.ok { text := utf8 "started\n" }, tree, started + 1)
  wait := fun world => (.success, world)

end Invocation.Sample

open Invocation Invocation.Sample in
/-- A call that finds an outline in the way, from a source that is not there. -/
theorem refused_touch_nothing_outline :
    call.launches counter tree 0 = [] ∧
      (call.outcome counter tree 0).1.tree = tree ∧
      (call.outcome counter found 0).1.errors = (call.outcome counter tree 0).1.errors ∧
      run options.request (call.materials counter options Settings.default) tree ({}, 0) =
        (.error (.outlineExists (utf8 "x.org")), {}, tree, {}, 0) := by
  have hparse : Options.parse call.arguments = .ok options := rfl
  have hentry : tree.inspect options.request.outlinePath = .ok (.file (utf8 "mine") false) := rfl
  have hidle : ∀ other, Options.parse call.arguments = .ok other → Idle other tree := by
    intro other hother
    obtain rfl := Except.ok.inj (hparse.symm.trans hother)
    exact .inTheWay (.inl rfl) rfl (by rw [hentry]; exact nofun)
  have halike : call.LooksAlike tree found := by
    intro other hother _ _
    obtain rfl := Except.ok.inj (hparse.symm.trans hother)
    exact ⟨rfl, fun _ _ => rfl⟩
  obtain ⟨hruns, hcalls⟩ := refused_touch_nothing
  have htouches := (hcalls counter call tree 0).1 hidle
  refine ⟨htouches.launched, htouches.files, ?_, ?_⟩
  · rw [htouches.sources found halike]
  · exact ((hruns options.request _ tree _).1 _
      (.outlineExists (by decide) (.inl rfl) rfl hentry)).1

end DocHarvest
