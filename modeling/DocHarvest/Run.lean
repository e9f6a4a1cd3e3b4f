import DocHarvest.Exporter
import DocHarvest.Outputs

/-!
# A Run

One run reads its sources in order, puts their documentation strings into the outputs, makes
the documents that were asked for from the outline, and removes an outline that was only a
means to that end. Nothing is touched before the request has been checked, and an outline that
nobody asked for is never written over an existing file.

## Main definitions

* `RunError` — why a run fails.
* `Run.check` — what has to hold before anything is touched.
* `Run.extract` — the documentation strings of one source go to the outputs.
* `run` — the whole run.
-/

namespace DocHarvest

open Files (Tree Location)

/-- Why a run fails. -/
inductive RunError
  | unnamed
  | outlineExists (path : Bytes)
  | unchecked (path : Bytes) (cause : Cause)
  | noFormatter
  | output (error : OutputError)
  | noReader (name : Bytes)
  | notOpened (path : Bytes) (cause : Cause)
  /-- A source supplies bytes without end, so that reading it never comes to one either. -/
  | endless (path : Bytes)
  | scan (name : Bytes) (error : Source.ScanError)
  | exporting (error : ExportError)
  | outlineNotRemoved (cause : Cause)
  deriving DecidableEq, Repr

/-- The words for a failed run. -/
def RunError.message : RunError → Bytes
  | unnamed => utf8 "option -c is mandatory"
  | outlineExists path => utf8 "outline file exists and -o not specified: " ++ path
  | unchecked path cause => utf8 "checking " ++ path ++ utf8 ": " ++ cause.message
  | noFormatter => utf8 "no formatter configured for HTML or PDF output"
  | output error => error.message
  | noReader name => utf8 "no reader for " ++ name
  | notOpened path cause => utf8 "opening source " ++ path ++ utf8 ": " ++ cause.message
  | endless path => utf8 "reading source " ++ path ++ utf8 ": no end"
  | scan name error => error.message name
  | exporting error => error.message
  | outlineNotRemoved cause => utf8 "removing intermediate outline: " ++ cause.message

/-- What a run has done: sources read to their end, documentation strings found in them, and
documents made. -/
structure Tally where
  sources : Nat := 0
  units : Nat := 0
  exports : Nat := 0
  deriving DecidableEq, Repr

/-- A formatter makes a document from the outline at a path. It acts on the files and on a
state of its own. -/
abbrev Formatter (σ : Type) :=
  Format → Bytes → Tree × σ → Except ExportError Unit × Tree × σ

namespace Run

/-- The name of standard input in messages. -/
def standardInput : Bytes := utf8 "<stdin>"

/-- What has to hold before anything is touched: the outputs are named, and an outline that
is only an intermediate does not exist yet. -/
def check (request : Request) (tree : Tree) : Except RunError Unit :=
  let path := request.outlinePath
  if !request.isNamed then .error .unnamed
  else if !request.outlineIsIntermediate then .ok ()
  else
    match tree.inspect path with
    | .ok _ => .error (.outlineExists path)
    | .error .missing => .ok ()
    | .error fault => .error (.unchecked path (.file .inspecting path fault))

/-! ### One source -/

/-- Puts the documentation strings of a source into the outputs; the number of them is the
result. -/
def extract (source : Source) (outputs : Outputs) (tree : Tree) :
    Except RunError Nat × Outputs × Tree :=
  let (found, scanError?) := source.docStrings
  match outputs.addAll found tree, scanError? with
  | (.error error, outputs', tree'), _ => (.error (.output error), outputs', tree')
  | (.ok (), outputs', tree'), some error => (.error (.scan source.name error), outputs', tree')
  | (.ok (), outputs', tree'), none => (.ok found.length, outputs', tree')

/-- Puts the documentation strings of the outline itself into the outputs. The outline grows
by every text that is found in it, and the scan goes on in what was added. Each literal is
longer than its text, so the bytes not read yet become fewer; their number bounds the scans. -/
def extractGrowing (name : Bytes) :
    Nat → Source.Scanner → Nat → Outputs → Tree → Except RunError Nat × Outputs × Tree
  | 0, _, count, outputs, tree => (.ok count, outputs, tree)
  | fuel + 1, scanner, count, outputs, tree =>
    match scanner.next .complete with
    | (.error error, _) => (.error (.scan name error), outputs, tree)
    | (.ok token, after) =>
      if token.kind = .endOfFile then (.ok count, outputs, tree)
      else
        match Source.docString? name token with
        | none => extractGrowing name fuel after count outputs tree
        | some d =>
          match outputs.add d tree with
          | (.error error, outputs', tree') => (.error (.output error), outputs', tree')
          | (.ok (), outputs', tree') =>
            extractGrowing name fuel { after with rest := after.rest ++ d.text } (count + 1)
              outputs' tree'

/-- How the bytes behind an entry are supplied, if they come to an end: the device that has no
space supplies zero bytes for ever. -/
def supply? (path : Bytes) : Files.Entry → Option (Bytes × Source.Ending)
  | .file content _ => some (content, .complete)
  | .directory => some ([], .failure (.file .reading path .isDirectory))
  | .full => none
  | .discard | .link _ => some ([], .complete)

/-- Puts the documentation strings of the file at a path into the outputs. -/
def extractFile (path : Bytes) (outputs : Outputs) (tree : Tree) :
    Except RunError Nat × Outputs × Tree :=
  match tree.locate path with
  | .error fault => (.error (.notOpened path (.file .opening path fault)), outputs, tree)
  | .ok (location, entry) =>
    match supply? path entry with
    | none => (.error (.endless path), outputs, tree)
    | some (bytes, ending) =>
      if outputs.outline? = some location then
        extractGrowing path (bytes.length + 1) { rest := bytes } 0 outputs tree
      else extract { name := path, bytes, ending } outputs tree

/-- Puts the documentation strings of standard input into the outputs. -/
def extractInput (input? : Option (Bytes × Source.Ending)) (outputs : Outputs) (tree : Tree) :
    Except RunError Nat × Outputs × Tree :=
  match input? with
  | none => (.error (.noReader standardInput), outputs, tree)
  | some (bytes, ending) => extract { name := standardInput, bytes, ending } outputs tree

/-! ### All sources -/

/-- Extracts from files in order, up to the first that fails. -/
def extractFiles : List Bytes → Tally → Outputs → Tree →
    Except RunError Unit × Tally × Outputs × Tree
  | [], tally, outputs, tree => (.ok (), tally, outputs, tree)
  | path :: others, tally, outputs, tree =>
    match extractFile path outputs tree with
    | (.error error, outputs', tree') => (.error error, tally, outputs', tree')
    | (.ok n, outputs', tree') =>
      extractFiles others
        { tally with sources := tally.sources + 1, units := tally.units + n } outputs' tree'

/-- Extracts from the given files, or from standard input when there are none. -/
def extractAll (paths : List Bytes) (input? : Option (Bytes × Source.Ending)) (outputs : Outputs)
    (tree : Tree) : Except RunError Unit × Tally × Outputs × Tree :=
  if paths.isEmpty then
    match extractInput input? outputs tree with
    | (.error error, outputs', tree') => (.error error, {}, outputs', tree')
    | (.ok n, outputs', tree') => (.ok (), { sources := 1, units := n }, outputs', tree')
  else extractFiles paths {} outputs tree

/-! ### Documents -/

/-- Makes documents in order, up to the first that fails. -/
def exportAll {σ : Type} (formatter : Formatter σ) (outline : Bytes) :
    List Format → Tally → Tree × σ → Except RunError Unit × Tally × Tree × σ
  | [], tally, world => (.ok (), tally, world)
  | format :: others, tally, world =>
    match formatter format outline world with
    | (.error error, world') => (.error (.exporting error), tally, world')
    | (.ok (), world') =>
      exportAll formatter outline others { tally with exports := tally.exports + 1 } world'

/-- Removes an outline that was only an intermediate. -/
def removeIntermediate (request : Request) (tree : Tree) : Except RunError Tree :=
  if request.outlineIsIntermediate then
    match tree.remove request.outlinePath with
    | .ok removed => .ok removed
    | .error fault =>
      .error (.outlineNotRemoved (.file .removing request.outlinePath fault))
  else .ok tree

end Run

/-- What a run works with besides its request and the files: the sources, standard input if there
is any, with the way in which its supply ends, the header of the catalog, and a formatter if there
is one. -/
structure Run.Materials (σ : Type) where
  sources : List Bytes
  input? : Option (Bytes × Source.Ending)
  header : CatalogHeader
  formatter? : Option (Formatter σ)

/-- A whole run: its result, what it has done, and the world it leaves behind. -/
def run {σ : Type} (request : Request) (materials : Run.Materials σ) (tree : Tree) (state : σ) :
    Except RunError Unit × Tally × Tree × σ :=
  match Run.check request tree, request.exports.isEmpty, materials.formatter? with
  | .error error, _, _ => (.error error, {}, tree, state)
  | .ok (), false, none => (.error .noFormatter, {}, tree, state)
  | .ok (), _, formatter? =>
    match Outputs.start request materials.header tree with
    | .error error => (.error (.output error), {}, tree, state)
    | .ok (outputs, opened) =>
      match Run.extractAll materials.sources materials.input? outputs opened with
      | (.error error, tally, _, extracted) => (.error error, tally, extracted, state)
      | (.ok (), tally, outputs', extracted) =>
        match outputs'.finish extracted with
        | (.error error, _, finished) => (.error (.output error), tally, finished, state)
        | (.ok (), _, finished) =>
          let formatter := formatter?.getD fun _ _ world => (.ok (), world)
          match Run.exportAll formatter request.outlinePath request.exports tally
              (finished, state) with
          | (.error error, tally', exported, state') => (.error error, tally', exported, state')
          | (.ok (), tally', exported, state') =>
            match Run.removeIntermediate request exported with
            | .error error => (.error error, tally', exported, state')
            | .ok removed => (.ok (), tally', removed, state')

end DocHarvest
