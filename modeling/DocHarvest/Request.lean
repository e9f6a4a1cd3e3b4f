import DocHarvest.Bytes

/-!
# Requests

What one run is asked for: the stem that all output names share, and the outputs wanted.
The outline is written when it is wanted itself and when a format has to be made from it; in
the second case alone it is an intermediate, gone when the run is over.
-/

namespace DocHarvest

/-- A document format that is made from the outline, known by its name. -/
structure Format where
  name : Bytes
  deriving DecidableEq, Repr

namespace Format

/-- Hypertext. -/
def html : Format := ⟨utf8 "html"⟩

/-- Pages for print. -/
def pdf : Format := ⟨utf8 "pdf"⟩

/-- The ending of file names in a format. -/
def extension (format : Format) : Bytes :=
  utf8 "." ++ format.name

end Format

/-- What a run is asked for. -/
structure Request where
  /-- What all output names start with. -/
  stem : Bytes
  outline : Bool := false
  html : Bool := false
  pdf : Bool := false
  catalog : Bool := false
  verbose : Bool := false
  deriving DecidableEq, Repr

namespace Request

/-- A request has to name its outputs. -/
def isNamed (request : Request) : Bool :=
  !request.stem.isEmpty

/-- Where the outline is written. -/
def outlinePath (request : Request) : Bytes :=
  request.stem ++ utf8 ".org"

/-- Where the catalog is written. -/
def catalogPath (request : Request) : Bytes :=
  request.stem ++ utf8 ".pot"

/-- Where a document in the given format appears. -/
def exportPath (request : Request) (format : Format) : Bytes :=
  request.stem ++ format.extension

/-- The formats to make from the outline, in the order in which they are made. -/
def exports (request : Request) : List Format :=
  (if request.html then [Format.html] else []) ++ (if request.pdf then [Format.pdf] else [])

/-- Whether the outline is written at all. -/
def needsOutline (request : Request) : Bool :=
  request.outline || request.html || request.pdf

/-- Whether the outline is written only to make other formats from it. -/
def outlineIsIntermediate (request : Request) : Bool :=
  !request.outline && request.needsOutline

end Request

end DocHarvest
