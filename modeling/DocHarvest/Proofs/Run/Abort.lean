import DocHarvest.Proofs.Outputs.Progress
import DocHarvest.Proofs.Run.Exports

/-!
# What an Aborted Run Leaves Behind

A run reads its sources in order and is aborted by the first that cannot be opened, cannot be
scanned to its end, or holds a string that the catalog refuses. Its outputs are then left as far
as they have come: the outline has every string that was read before the failure, and the one
that was refused as well; the catalog was never a file; no formatter was called. An outline that
was meant as an intermediate stays where it is and stands in the way of every run after.

The sources are judged as they are when the outputs are open. A source that is not the outline
can be opened then exactly when it could be opened before, and has the same bytes. A source without
end is never read to its end; the run is taken to stop at it, with what it has done by then.

Three arrangements of the files are left out, each where it matters. When the paths of the
outline and of the catalog lead to one file, that file is the outline. A device without space
fails the run when the first string is written. A device that takes everything is no outline
that could hold anything.

## Main definitions

* `Run.reading`, `Run.Materials.readings` — what there is to read at a path, and in a run.
* `Run.Passes`, `Run.Stops` — a source that is read to its end, and one that aborts the run.
* `Run.Aborted` — what an aborted run leaves behind.

## Main results

* `Run.passes_or_stops` — every source does one or the other.
* `Run.extractFiles_aborted` — reading files comes to the first that stops it.
* `run_aborted` — the whole run.
-/

namespace DocHarvest

open Files (Tree Location Path)

namespace Run

variable {request : Request} {outline? : Option Location} {tree opened : Tree}
  {outputs : Outputs} {source : Source} {error : RunError}

/-! ### Sources -/

/-- What there is to read at a path: a source, or the failure to open one or to come to its end. -/
def reading (tree : Tree) (path : Bytes) : Except RunError Source :=
  match tree.locate path with
  | .error fault => .error (.notOpened path (.file .opening path fault))
  | .ok (_, entry) =>
    match supply? path entry with
    | none => .error (.endless path)
    | some (bytes, ending) => .ok { name := path, bytes, ending }

/-- What there is to read on standard input. -/
def inputReading (input? : Option (Bytes × Source.Ending)) : Except RunError Source :=
  match input? with
  | none => .error (.noReader standardInput)
  | some (bytes, ending) => .ok { name := standardInput, bytes, ending }

/-- What there is to read in a run, in order: the files, or standard input when there are
none. -/
def Materials.readings {σ : Type} (materials : Materials σ) (tree : Tree) :
    List (Except RunError Source) :=
  if materials.sources.isEmpty then [inputReading materials.input?]
  else materials.sources.map (reading tree)

/-- A source is read to its end, and the outputs take all its strings. -/
structure Passes (request : Request) (source : Source) : Prop where
  scanned : source.docStrings.2 = none
  accepted : ∀ d ∈ source.docStrings.1, request.Accepts d

/-- **A source aborts the run**: the strings of it that reach the outline, and the error. -/
inductive Stops (request : Request) :
    Except RunError Source → List DocString → RunError → Prop
  | unopened {error : RunError} : Stops request (.error error) [] error
  | unscanned {source : Source} {error : Source.ScanError}
      (failed : source.docStrings.2 = some error)
      (accepted : ∀ d ∈ source.docStrings.1, request.Accepts d) :
      Stops request (.ok source) source.docStrings.1 (.scan source.name error)
  | refused {source : Source} {before after : List DocString} {d : DocString}
      (found : source.docStrings.1 = before ++ d :: after)
      (accepted : ∀ b ∈ before, request.Accepts b) (refused : ¬ request.Accepts d) :
      Stops request (.ok source) (before ++ [d]) (.output (.refused ⟨d.source, d.line⟩))

/-- **Every source passes or aborts the run**, the latter with its first string that is refused. -/
theorem passes_or_stops (request : Request) (reading : Except RunError Source) :
    (∃ source, reading = .ok source ∧ Passes request source) ∨
      ∃ yielded error, Stops request reading yielded error := by
  cases reading with
  | error error => exact .inr ⟨[], error, .unopened⟩
  | ok source =>
    by_cases haccepted : ∀ d ∈ source.docStrings.1, request.Accepts d
    · cases hscan : source.docStrings.2 with
      | none => exact .inl ⟨source, rfl, hscan, haccepted⟩
      | some error => exact .inr ⟨_, _, .unscanned hscan haccepted⟩
    · obtain ⟨d, hd⟩ := Option.isSome_iff_exists.mp (List.find?_isSome.mpr
        (show ∃ d ∈ source.docStrings.1, (!decide (request.Accepts d)) = true by
          simpa using haccepted))
      obtain ⟨hrefused, before, after, hfound, hbefore⟩ := List.find?_eq_some_iff_append.mp hd
      exact .inr ⟨_, _, .refused hfound (by simpa using hbefore) (by simpa using hrefused)⟩

/-! ### One source -/

/-- The documentation strings of what was read go to the outputs. -/
def extractReading (reading : Except RunError Source) (outputs : Outputs) (tree : Tree) :
    Except RunError Nat × Outputs × Tree :=
  match reading with
  | .error error => (.error error, outputs, tree)
  | .ok source => extract source outputs tree

/-- A source that passes goes to the outputs whole. -/
theorem extractReading_passes (hserves : Outputs.Serves request outline? tree outputs)
    (h : Passes request source) :
    ∃ outputs', extractReading (.ok source) outputs tree =
        (.ok source.docStrings.1.length, outputs',
          Outputs.grown outline? (source.docStrings.1.flatMap DocString.text) tree) ∧
      Outputs.Serves request outline?
        (Outputs.grown outline? (source.docStrings.1.flatMap DocString.text) tree) outputs' := by
  obtain ⟨outputs', hadd, hserves'⟩ := hserves.addAll_accepted h.accepted
  refine ⟨outputs', ?_, hserves'⟩
  simp only [extractReading, extract, hadd, h.scanned]

/-- Of a source that stops the run, the strings before the failure reach the outline. -/
theorem extractReading_stops {reading : Except RunError Source} {yielded : List DocString}
    (hserves : Outputs.Serves request outline? tree outputs)
    (h : Stops request reading yielded error) :
    ∃ outputs', extractReading reading outputs tree =
      (.error error, outputs', Outputs.grown outline? (yielded.flatMap DocString.text) tree) := by
  cases h with
  | unopened => exact ⟨outputs, by simp [extractReading]⟩
  | unscanned failed accepted =>
    obtain ⟨outputs', hadd, -⟩ := hserves.addAll_accepted accepted
    exact ⟨outputs', by simp only [extractReading, extract, hadd, failed]⟩
  | @refused source before after d found accepted refused =>
    obtain ⟨outputs', hadd⟩ := hserves.addAll_refused accepted refused after
    refine ⟨outputs', ?_⟩
    simp only [extractReading, extract, found, hadd]

/-- A file that is not the outline is read as it was when the outputs were opened, however much
the outline has grown. -/
theorem extractFile_grown {path : Bytes} (houtline : outputs.outline? = outline?)
    (hpath : ∀ location, outline? = some location →
      ∀ entry, opened.locate path ≠ .ok (location, entry)) (text : Bytes) :
    extractFile path outputs (Outputs.grown outline? text opened) =
      extractReading (reading opened path) outputs (Outputs.grown outline? text opened) := by
  have hlocate : (Outputs.grown outline? text opened).locate path = opened.locate path := by
    cases outline? with
    | none => rfl
    | some location => exact Tree.locate_written (hpath location rfl) text
  unfold extractFile reading
  rw [hlocate, houtline]
  cases hfound : opened.locate path with
  | error fault => rfl
  | ok found =>
    have hother : outline? ≠ some found.1 := fun h => hpath found.1 h found.2 hfound
    cases hsupply : supply? path found.2 with
    | none => simp only [hsupply, extractReading]
    | some supplied => simp only [hsupply, hother, if_false, extractReading]

/-! ### All sources -/

section Aborting

variable {passed : List Source} {stopped : Except RunError Source}
  {later : List (Except RunError Source)} {yielded : List DocString}
  (hpassed : ∀ source ∈ passed, Passes request source)
  (hstopped : Stops request stopped yielded error)
include hpassed hstopped

/-- **Reading files comes to the first that stops it**, and the tally counts those before. -/
theorem extractFiles_aborted {paths : List Bytes} (tally : Tally) {text : Bytes}
    (hserves : Outputs.Serves request outline? (Outputs.grown outline? text opened) outputs)
    (hpaths : ∀ path ∈ paths, ∀ location, outline? = some location →
      ∀ entry, opened.locate path ≠ .ok (location, entry))
    (hreadings : paths.map (reading opened) = passed.map .ok ++ stopped :: later) :
    ∃ outputs', extractFiles paths tally outputs (Outputs.grown outline? text opened) =
      (.error error,
        ⟨tally.sources + passed.length,
          tally.units + (passed.flatMap (·.docStrings.1)).length, tally.exports⟩,
        outputs',
        Outputs.grown outline? (text ++
          (passed.flatMap (·.docStrings.1) ++ yielded).flatMap DocString.text) opened) := by
  induction passed generalizing paths outputs text tally with
  | nil =>
    cases paths with
    | nil => simp at hreadings
    | cons path others =>
      obtain ⟨rfl, -⟩ := List.cons.inj hreadings
      obtain ⟨hpath, -⟩ := List.forall_mem_cons.mp hpaths
      obtain ⟨outputs', hextract⟩ := extractReading_stops hserves hstopped
      rw [Outputs.grown_grown] at hextract
      refine ⟨outputs', ?_⟩
      rw [extractFiles, extractFile_grown hserves.outline hpath, hextract]
      rfl
  | cons source sources ih =>
    cases paths with
    | nil => simp at hreadings
    | cons path others =>
      rw [List.map_cons, List.map_cons, List.cons_append, List.cons.injEq] at hreadings
      obtain ⟨hread, hrest⟩ := hreadings
      obtain ⟨hpath, hothers⟩ := List.forall_mem_cons.mp hpaths
      obtain ⟨hsource, hsources⟩ := List.forall_mem_cons.mp hpassed
      obtain ⟨next, hextract, hnext⟩ := extractReading_passes hserves hsource
      rw [Outputs.grown_grown] at hextract hnext
      obtain ⟨outputs', hfiles⟩ := ih hsources
        { tally with
          sources := tally.sources + 1, units := tally.units + source.docStrings.1.length }
        hnext hothers hrest
      refine ⟨outputs', ?_⟩
      rw [extractFiles, extractFile_grown hserves.outline hpath, hread, hextract]
      simp only [hfiles, List.length_cons, List.flatMap_cons, List.length_append,
        List.flatMap_append, List.append_assoc, Nat.add_assoc, Nat.add_comm 1]

/-- The same for all sources of a run. -/
theorem extractAll_aborted {σ : Type} {materials : Materials σ}
    (hserves : Outputs.Serves request outline? opened outputs)
    (hpaths : ∀ path ∈ materials.sources, ∀ location, outline? = some location →
      ∀ entry, opened.locate path ≠ .ok (location, entry))
    (hreadings : materials.readings opened = passed.map .ok ++ stopped :: later) :
    ∃ outputs', extractAll materials.sources materials.input? outputs opened =
      (.error error, ⟨passed.length, (passed.flatMap (·.docStrings.1)).length, 0⟩, outputs',
        Outputs.grown outline?
          ((passed.flatMap (·.docStrings.1) ++ yielded).flatMap DocString.text) opened) := by
  unfold extractAll
  unfold Materials.readings at hreadings
  cases hempty : materials.sources.isEmpty with
  | true =>
    rw [hempty, if_pos rfl, List.singleton_eq_append_iff] at hreadings
    obtain ⟨hnone, hread⟩ | ⟨-, hnil⟩ := hreadings
    case inr => cases hnil
    obtain ⟨rfl, -⟩ := List.cons.inj hread
    obtain rfl := List.map_eq_nil_iff.mp hnone
    have hinput : extractInput materials.input? outputs opened =
        extractReading (inputReading materials.input?) outputs opened := by
      unfold extractInput inputReading
      cases materials.input? <;> rfl
    obtain ⟨outputs', hextract⟩ := extractReading_stops hserves hstopped
    refine ⟨outputs', ?_⟩
    rw [if_pos rfl, hinput, hextract]
    rfl
  | false =>
    rw [hempty, if_neg Bool.false_ne_true] at hreadings
    obtain ⟨outputs', hfiles⟩ := extractFiles_aborted hpassed hstopped {}
      (by rwa [Outputs.grown_nil]) hpaths hreadings
    refine ⟨outputs', ?_⟩
    rw [Outputs.grown_nil] at hfiles
    rw [if_neg Bool.false_ne_true, hfiles]
    simp only [List.nil_append, Nat.zero_add]

end Aborting

/-! ### Sources that are not the outline -/

section Started

variable {header : CatalogHeader} {path : Bytes}
  (hstart : Outputs.start request header tree = .ok (outputs, opened))
  (hspace : request.needsOutline = true → tree.inspect request.outlinePath ≠ .ok .full)
  (hpath : ¬ opened.SameFile path request.outlinePath)
include hstart hspace hpath

/-- A source that is not the outline does not lead to the open file. -/
theorem locate_ne_outline {location : Location} (hopen : outputs.outline? = some location)
    (entry : Files.Entry) : opened.locate path ≠ .ok (location, entry) := by
  intro hlocate
  obtain ⟨-, hnoOutline, houtline⟩ := Outputs.serves_start hstart hspace
  cases hneeds : request.needsOutline with
  | false => simp [(hnoOutline hneeds).1] at hopen
  | true =>
    obtain ⟨outline, hsome, hleads, -, hsame, -⟩ := houtline hneeds
    obtain rfl := Option.some.inj (hopen.symm.trans hsome)
    have hled := (Tree.look_eq_some_iff.mp (Tree.locate_eq_ok_iff.mp hlocate)).1
    rw [← hsame.leads_eq request.outlinePath_namesFile] at hleads
    exact hpath (Tree.sameFile_of_leads hled hleads)

/-- A source that is not the outline could be opened before the outputs were, if it can be now,
and has the same bytes. -/
theorem locate_opened_iff {location : Location} {entry : Files.Entry} :
    opened.locate path = .ok (location, entry) ↔ tree.locate path = .ok (location, entry) := by
  obtain ⟨-, hnoOutline, houtline⟩ := Outputs.serves_start hstart hspace
  cases hneeds : request.needsOutline with
  | false => rw [(hnoOutline hneeds).2]
  | true =>
    obtain ⟨outline, hsome, hleads, hdirectory, hsame, -⟩ := houtline hneeds
    constructor
    · intro hlocate
      refine hsame.locate_eq hlocate fun hmem => ?_
      obtain rfl := List.mem_singleton.mp hmem
      exact locate_ne_outline hstart hspace hpath hsome entry hlocate
    · intro hlocate
      refine hsame.symm.locate_eq hlocate fun hmem => ?_
      obtain rfl := List.mem_singleton.mp hmem
      obtain ⟨hled, hfind⟩ := Tree.look_eq_some_iff.mp (Tree.locate_eq_ok_iff.mp hlocate)
      have hfile : Path.NamesFile path :=
        Tree.namesFile_of_locate hlocate fun hdir => hdirectory (hdir ▸ hfind)
      rw [← hsame.leads_eq hfile] at hled
      rw [← hsame.leads_eq request.outlinePath_namesFile] at hleads
      exact hpath (Tree.sameFile_of_leads hled hleads)

/-- A source that is not the outline is read as it could be read before. -/
theorem reading_opened_iff :
    reading opened path = .ok source ↔ reading tree path = .ok source := by
  have hiff : ∀ found, opened.locate path = .ok found ↔ tree.locate path = .ok found :=
    fun _ => locate_opened_iff hstart hspace hpath
  unfold reading
  cases htree : tree.locate path with
  | ok found => rw [(hiff found).mpr htree]
  | error fault =>
    cases hopened : opened.locate path with
    | ok found => cases htree.symm.trans ((hiff found).mp hopened)
    | error fault' => simp

end Started

/-! ### The files afterwards -/

/-- An intermediate outline that exists stands in the way of every run. -/
theorem run_of_outline_exists {σ : Type} (hnamed : request.isNamed = true)
    (hintermediate : request.outlineIsIntermediate = true) {entry : Files.Entry}
    (h : tree.inspect request.outlinePath = .ok entry) (materials : Materials σ) (state : σ) :
    run request materials tree state =
      (.error (.outlineExists request.outlinePath), {}, tree, state) := by
  refine run_of_check_error ?_ materials state
  simp [check, hnamed, hintermediate, h]

/-- **What an aborted run leaves behind**, when the given strings have reached its outline. -/
structure Aborted (request : Request) (tree : Tree) (taken : List DocString) (tree' : Tree) :
    Prop where
  outline : request.needsOutline = true → tree.KeepsWrites request.outlinePath →
    ∃ executable, tree'.inspect request.outlinePath =
      .ok (.file (taken.flatMap DocString.text) executable)
  /-- What the path of the catalog shows is as it was, and so is a link at its end. -/
  catalog : ∀ through, (request.needsOutline = true →
      tree.leads through request.catalogPath ≠ tree.leads true request.outlinePath) →
    tree'.look through request.catalogPath = tree.look through request.catalogPath
  /-- An intermediate outline is left behind, and as long as something is there, no run with the
  same request does anything. -/
  intermediate : request.outlineIsIntermediate = true →
    (∃ executable, tree'.inspect request.outlinePath =
      .ok (.file (taken.flatMap DocString.text) executable)) ∧
    ∀ (later : Tree) (entry : Files.Entry), later.inspect request.outlinePath = .ok entry →
      ∀ (σ : Type) (materials : Materials σ) (state : σ), run request materials later state =
        (.error (.outlineExists request.outlinePath), {}, later, state)

/-- A path that the check found nothing at has no device at its end. -/
theorem keepsWrites_of_check (hcheck : check request tree = .ok ())
    (hintermediate : request.outlineIsIntermediate = true) :
    tree.KeepsWrites request.outlinePath := by
  have hmissing := (check_eq_ok_iff.mp hcheck).2 hintermediate
  cases hlook : tree.look true request.outlinePath with
  | none => simp [Tree.KeepsWrites, hlook]
  | some shown =>
    obtain ⟨location, entry⟩ := shown
    cases hmissing.symm.trans (Tree.inspect_eq_ok hlook)

/-- A run that ends while it extracts has left the outline with the texts up to there. -/
theorem aborted_grown {header : CatalogHeader} (hcheck : check request tree = .ok ())
    (hstart : Outputs.start request header tree = .ok (outputs, opened))
    (hspace : request.needsOutline = true → tree.inspect request.outlinePath ≠ .ok .full)
    (taken : List DocString) :
    Aborted request tree taken
      (Outputs.grown outputs.outline? (taken.flatMap DocString.text) opened) := by
  obtain ⟨-, hnoOutline, houtline⟩ := Outputs.serves_start hstart hspace
  have hkept : request.needsOutline = true → tree.KeepsWrites request.outlinePath →
      ∃ executable, (Outputs.grown outputs.outline? (taken.flatMap DocString.text) opened).inspect
        request.outlinePath = .ok (.file (taken.flatMap DocString.text) executable) := by
    intro hneeds hkeeps
    obtain ⟨location, hsome, hleads, -, hsame, hfile⟩ := houtline hneeds
    obtain ⟨executable, hfind⟩ := hfile hkeeps
    have hled : (opened.written location (taken.flatMap DocString.text)).leads true
        request.outlinePath = some location := by
      rw [(hsame.trans (opened.sameBut_written location _)).leads_eq
        request.outlinePath_namesFile, hleads]
    have hholds := Tree.find?_written_file hfind (taken.flatMap DocString.text)
    rw [hsome]
    exact ⟨executable, Tree.inspect_eq_ok (Tree.look_eq_some_iff.mpr ⟨hled, hholds⟩)⟩
  refine ⟨hkept, fun through helsewhere => ?_, fun hintermediate => ⟨?_, ?_⟩⟩
  · cases hneeds : request.needsOutline with
    | false =>
      obtain ⟨hnone, rfl⟩ := hnoOutline hneeds
      rw [hnone, Outputs.grown]
    | true =>
      obtain ⟨location, hsome, hleads, -, hsame, -⟩ := houtline hneeds
      rw [hsome, Outputs.grown]
      refine (hsame.trans (opened.sameBut_written location _)).look_eq
        request.catalogPath_namesFile fun l hl => ?_
      obtain rfl : l = location := by simpa using hl
      rw [← hleads]
      exact helsewhere hneeds
  · exact hkept (Request.needsOutline_of_intermediate hintermediate)
      (keepsWrites_of_check hcheck hintermediate)
  · intro later entry hthere σ materials state
    exact run_of_outline_exists (check_eq_ok_iff.mp hcheck).1 hintermediate hthere materials state

end Run

/-- **What a run that is aborted has done.** The checks pass and the outputs can be opened; the
sources before the one that stops the run are read to their end and counted, and no formatter is
called. -/
theorem run_aborted {σ : Type} {request : Request} {materials : Run.Materials σ}
    {tree opened : Tree} {state : σ} {outputs : Outputs} {passed : List Source}
    {stopped : Except RunError Source} {later : List (Except RunError Source)}
    {yielded : List DocString} {error : RunError}
    (hcheck : Run.check request tree = .ok ())
    (hformatter : request.exports ≠ [] → materials.formatter?.isSome)
    (hstart : Outputs.start request materials.header tree = .ok (outputs, opened))
    (hsources : ∀ path ∈ materials.sources, ¬ opened.SameFile path request.outlinePath)
    (hspace : request.needsOutline = true → tree.inspect request.outlinePath ≠ .ok .full)
    (hreadings : materials.readings opened = passed.map .ok ++ stopped :: later)
    (hpassed : ∀ source ∈ passed, Run.Passes request source)
    (hstopped : Run.Stops request stopped yielded error) :
    (∀ path ∈ materials.sources, ∀ source,
      Run.reading opened path = .ok source ↔ Run.reading tree path = .ok source) ∧
    ∃ tree', run request materials tree state =
        (.error error, ⟨passed.length, (passed.flatMap (·.docStrings.1)).length, 0⟩,
          tree', state) ∧
      Run.calls request materials tree state = [] ∧
      Run.Aborted request tree (passed.flatMap (·.docStrings.1) ++ yielded) tree' := by
  obtain ⟨hserves, -, -⟩ := Outputs.serves_start hstart hspace
  obtain ⟨outputs', hextract⟩ := Run.extractAll_aborted hpassed hstopped hserves
    (fun path hpath location hopen =>
      Run.locate_ne_outline hstart hspace (hsources path hpath) hopen) hreadings
  refine ⟨fun path hpath source => Run.reading_opened_iff hstart hspace (hsources path hpath), _,
    run_of_extractAll_error hcheck hformatter hstart hextract state, ?_,
    Run.aborted_grown hcheck hstart hspace _⟩
  have hsome : request.exports ≠ [] → materials.recorded.formatter?.isSome := by
    simpa [Run.Materials.recorded] using hformatter
  rw [Run.calls, run_of_extractAll_error hcheck hsome hstart hextract]

/-! ### A run that is stopped by its second source -/

namespace Run.Interrupted

/-- The first source, with two strings. -/
def first : Source where
  name := utf8 "a.py"
  bytes := utf8 "\"\"\"one\"\"\"\nf(\"\"\"two\"\"\")"

/-- The second source, with a text that is not UTF-8 between two others. -/
def second : Source where
  name := utf8 "b.py"
  bytes := utf8 "\"\"\"three\"\"\"\n\"\"\"" ++ [0xff] ++ utf8 "\"\"\"\n\"\"\"four\"\"\""

/-- The sources, and the catalog of an earlier run. -/
def tree : Tree where
  entries := [
    ([first.name], .file first.bytes false),
    ([second.name], .file second.bytes false),
    ([utf8 "x.pot"], .file (utf8 "old") false)]

/-- The outline is only an intermediate. -/
def request : Request := { stem := utf8 "x", html := true, catalog := true }

/-- A third source is never opened. -/
def materials : Materials Unit where
  sources := [first.name, second.name, utf8 "c.py"]
  input? := none
  header := Settings.default.catalog
  formatter? := some fun _ _ world => (.ok (), world)

/-- The strings that reach the outline. -/
def taken : List DocString :=
  [⟨utf8 "one", first.name, 1⟩, ⟨utf8 "two", first.name, 2⟩, ⟨utf8 "three", second.name, 1⟩,
    ⟨[0xff], second.name, 2⟩]

end Run.Interrupted

open Run.Interrupted in
/-- A run with two sources, ended by a string that is not UTF-8. -/
theorem run_aborted_not_utf8 :
    ∃ tree', run request materials tree () =
        (.error (.output (.refused ⟨utf8 "b.py", 2⟩)), ⟨1, 2, 0⟩, tree', ()) ∧
      Run.calls request materials tree () = [] ∧
      Run.Aborted request tree taken tree' := by
  have hstart : Outputs.start request materials.header tree =
      .ok (⟨request, some [utf8 "x.org"], some { header := Settings.default.catalog }⟩,
        tree.set [utf8 "x.org"] (.file [] false)) := rfl
  have hreadings : materials.readings (tree.set [utf8 "x.org"] (.file [] false)) =
      [first].map .ok ++ .ok second :: [Run.reading tree (utf8 "c.py")] := rfl
  have hpassed : ∀ source ∈ [first], Run.Passes request source := by
    intro source hsource
    obtain rfl := List.mem_singleton.mp hsource
    exact ⟨by decide +kernel, by decide +kernel⟩
  have hfound : second.docStrings.1 = [⟨utf8 "three", second.name, 1⟩] ++
      ⟨[0xff], second.name, 2⟩ :: [⟨utf8 "four", second.name, 3⟩] := by decide +kernel
  have hmissing : tree.inspect request.outlinePath = .error .missing := rfl
  obtain ⟨-, tree', hrun, hcalls, haborted⟩ := run_aborted rfl (fun _ => rfl) hstart
    (by decide +kernel) (by simp [hmissing]) hreadings hpassed
    (.refused hfound (by decide +kernel) (by decide +kernel))
  exact ⟨tree', hrun, hcalls, haborted⟩

/-! ### Outlines that are links

A link in the place of the outline can lead to the catalog or to a device. In each of these
arrangements one thing that is said of an aborted run fails. -/

namespace Run.Linked

/-- A source with one string, and then a literal that is never closed. -/
def source : Source where
  name := utf8 "a.py"
  bytes := utf8 "\"\"\"one\"\"\"\n\"\"\"two"

/-- The source, an old catalog, the devices, and a link in the place of the outline. -/
def tree (target : Bytes) : Tree where
  entries := [
    ([source.name], .file source.bytes false),
    ([utf8 "x.pot"], .file (utf8 "old") false),
    ([utf8 "x.org"], .link target),
    ([utf8 "dev"], .directory),
    ([utf8 "dev", utf8 "full"], .full),
    ([utf8 "dev", utf8 "null"], .discard)]

def request : Request := { stem := utf8 "x", outline := true, catalog := true }

def materials : Materials Unit where
  sources := [source.name]
  input? := none
  header := Settings.default.catalog
  formatter? := none

/-- The error with which the source ends. -/
def error : RunError := .scan source.name (.malformed .openText 2)

/-- A run is stopped by its only source, whatever the link leads to. -/
def StoppedBySource (target : Bytes) : Prop :=
  Run.check request (tree target) = .ok () ∧
    ∃ outputs opened,
      Outputs.start request materials.header (tree target) = .ok (outputs, opened) ∧
      (∀ path ∈ materials.sources, ¬ opened.SameFile path request.outlinePath) ∧
      materials.readings opened = [.ok source] ∧
      Stops request (.ok source) [⟨utf8 "one", source.name, 1⟩] error

end Run.Linked

open Run.Linked in
/-- A link to the catalog: the catalog does not stay as it was. A link to a device without
space: the run fails with another error. A link to a device that takes everything: the outline
holds nothing. -/
theorem run_aborted_through_links :
    (∀ target ∈ [utf8 "x.pot", utf8 "/dev/full", utf8 "/dev/null"], StoppedBySource target) ∧
      (run request materials (tree (utf8 "x.pot")) ()).2.2.1.look true request.catalogPath ≠
        (tree (utf8 "x.pot")).look true request.catalogPath ∧
      (run request materials (tree (utf8 "/dev/full")) ()).1 =
        .error (.output (.outlineNotWritten request.outlinePath
          (.file .writing request.outlinePath .noSpace))) ∧
      (run request materials (tree (utf8 "/dev/null")) ()).2.2.1.look true request.outlinePath =
        some ([utf8 "dev", utf8 "null"], .discard) := by
  have hstops : Run.Stops request (.ok source) [⟨utf8 "one", source.name, 1⟩] error := by
    have hfound : source.docStrings.1 = [⟨utf8 "one", source.name, 1⟩] := by decide +kernel
    have haccepted : ∀ d ∈ source.docStrings.1, request.Accepts d := by decide +kernel
    rw [← hfound]
    exact .unscanned (by decide +kernel) haccepted
  refine ⟨?_, by decide +kernel, rfl, by decide +kernel⟩
  simp only [List.forall_mem_cons, List.not_mem_nil, false_implies, implies_true, and_true]
  exact ⟨⟨rfl, _, _, rfl, by decide +kernel, rfl, hstops⟩,
    ⟨rfl, _, _, rfl, by decide +kernel, rfl, hstops⟩,
    ⟨rfl, _, _, rfl, by decide +kernel, rfl, hstops⟩⟩

end DocHarvest
