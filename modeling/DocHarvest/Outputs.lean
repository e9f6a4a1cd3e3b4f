import DocHarvest.Catalog.Po
import DocHarvest.Cause
import DocHarvest.Files.Tree
import DocHarvest.Request

/-!
# The Outputs of a Run

While sources are read, a run holds its outputs open: the outline, which is written string by
string, and the catalog, which is collected and saved at the end. Outputs that were not asked
for are never opened.

## Main definitions

* `Outputs` — the open outputs; `Outputs.start` opens them.
* `Outputs.add`, `Outputs.finish`, `Outputs.close` — what is done with them.
-/

namespace DocHarvest

open Files (Tree Location)

/-- Why an output cannot be produced. -/
inductive OutputError
  | outlineNotCreated (cause : Cause)
  | outlineNotWritten (path : Bytes) (cause : Cause)
  | refused (refusal : Catalog.Refusal)
  | catalogNotWritten (path : Bytes) (cause : Cause)
  deriving DecidableEq, Repr

/-- The words for a failed output. -/
def OutputError.message : OutputError → Bytes
  | outlineNotCreated cause => utf8 "creating outline: " ++ cause.message
  | outlineNotWritten path cause =>
    utf8 "writing outline " ++ path ++ utf8 ": " ++ cause.message
  | refused refusal => refusal.message
  | catalogNotWritten path cause =>
    utf8 "writing catalog " ++ path ++ utf8 ": " ++ cause.message

/-- Saves a catalog at a path. -/
def Catalog.save (catalog : Catalog) (path : Bytes) (tree : Tree) :
    Except OutputError Unit × Tree :=
  match tree.save path catalog.text with
  | (.ok (), written) => (.ok (), written)
  | (.error (operation, fault), written) =>
    (.error (.catalogNotWritten path (.file operation path fault)), written)

/-- The open outputs of a request: the file that the outline goes to, until it is closed, and
the catalog collected so far. -/
structure Outputs where
  request : Request
  outline? : Option Location := none
  catalog? : Option Catalog := none
  deriving DecidableEq, Repr

namespace Outputs

/-- Opens the outputs that a request asks for. The outline is created, or emptied, at once. -/
def start (request : Request) (header : CatalogHeader) (tree : Tree) :
    Except OutputError (Outputs × Tree) :=
  let catalog? := if request.catalog then some { header : Catalog } else none
  if request.needsOutline then
    match tree.create request.outlinePath with
    | .error fault =>
      .error (.outlineNotCreated (.file .opening request.outlinePath fault))
    | .ok (location, opened) => .ok (⟨request, some location, catalog?⟩, opened)
  else .ok (⟨request, none, catalog?⟩, tree)

/-- Writes a text to the outline, if it is open. -/
def writeOutline (outputs : Outputs) (text : Bytes) (tree : Tree) : Except OutputError Tree :=
  match outputs.outline? with
  | none => .ok tree
  | some location =>
    match tree.append location text with
    | .ok written => .ok written
    | .error fault =>
      let path := outputs.request.outlinePath
      .error (.outlineNotWritten path (.file .writing path fault))

/-- Adds a documentation string to every open output: its text to the outline, as it is and with
nothing between two texts, and then the string to the catalog. -/
def add (d : DocString) (outputs : Outputs) (tree : Tree) :
    Except OutputError Unit × Outputs × Tree :=
  match outputs.writeOutline d.text tree with
  | .error error => (.error error, outputs, tree)
  | .ok written =>
    match outputs.catalog? with
    | none => (.ok (), outputs, written)
    | some catalog =>
      match catalog.add d with
      | .error refusal => (.error (.refused refusal), outputs, written)
      | .ok larger => (.ok (), { outputs with catalog? := some larger }, written)

/-- Closes the outline. Nothing is written, and closing again changes nothing. -/
def close (outputs : Outputs) : Outputs :=
  { outputs with outline? := none }

/-- Saves the catalog and closes the outline, also when saving fails. -/
def finish (outputs : Outputs) (tree : Tree) : Except OutputError Unit × Outputs × Tree :=
  match outputs.catalog? with
  | none => (.ok (), outputs.close, tree)
  | some catalog =>
    let (result, saved) := catalog.save outputs.request.catalogPath tree
    (result, outputs.close, saved)

/-- Adds documentation strings in order, up to the first that fails. -/
def addAll : List DocString → Outputs → Tree → Except OutputError Unit × Outputs × Tree
  | [], outputs, tree => (.ok (), outputs, tree)
  | d :: others, outputs, tree =>
    match outputs.add d tree with
    | (.error error, outputs', tree') => (.error error, outputs', tree')
    | (.ok (), outputs', tree') => addAll others outputs' tree'

end Outputs

end DocHarvest
