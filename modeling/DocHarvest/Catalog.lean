import DocHarvest.Bytes.Utf8
import DocHarvest.Settings
import DocHarvest.Source.DocString

/-!
# The Catalog

A catalog is a gettext template of documentation strings. Strings with the same text share
one message, which lists every place the text occurs at; messages keep the order in which
their texts were first seen. A text that is not UTF-8 has no place in a catalog.
-/

namespace DocHarvest

/-- A place where a text occurs. -/
structure Occurrence where
  source : Bytes
  line : Int
  deriving DecidableEq, Repr

/-- The place of a documentation string. -/
def DocString.occurrence (d : DocString) : Occurrence :=
  ⟨d.source, d.line⟩

/-- A text with the sources and the lines where it occurs. The two lists have one member for
each place. -/
structure Message where
  text : Bytes
  sources : List Bytes
  lines : List Int
  deriving DecidableEq, Repr

namespace Message

/-- The places where the text occurs. -/
def occurrences (message : Message) : List Occurrence :=
  List.zipWith Occurrence.mk message.sources message.lines

/-- The message with one place more. -/
def addPlace (message : Message) (place : Occurrence) : Message :=
  { message with
    sources := message.sources ++ [place.source]
    lines := message.lines ++ [place.line] }

end Message

/-- A header and the messages collected so far, with an index that gives for each text the
position of its message. -/
structure Catalog where
  header : CatalogHeader
  messages : List Message := []
  index : List (Bytes × Nat) := []
  deriving DecidableEq, Repr

/-- A documentation string that a catalog refuses, because its text is not UTF-8. -/
structure Catalog.Refusal where
  source : Bytes
  line : Int
  deriving DecidableEq, Repr

namespace Catalog

/-- The words for a refused string. -/
def Refusal.message (r : Refusal) : Bytes :=
  r.source ++ utf8 ":" ++ decimal r.line ++ utf8 ": documentation string is not valid UTF-8"

/-- Adds a place to the message that the index gives for the text, or a new message at the
end when it gives none. -/
def record (catalog : Catalog) (d : DocString) : Catalog :=
  match catalog.index.lookup d.text with
  | some position =>
    { catalog with
      messages := catalog.messages.modify position fun message =>
        message.addPlace d.occurrence }
  | none =>
    { catalog with
      messages := catalog.messages ++ [⟨d.text, [d.source], [d.line]⟩]
      index := (d.text, catalog.messages.length) :: catalog.index }

/-- Adds a documentation string. -/
def add (catalog : Catalog) (d : DocString) : Except Refusal Catalog :=
  if Utf8.isValid d.text then .ok (catalog.record d) else .error ⟨d.source, d.line⟩

/-- The number of messages. -/
def size (catalog : Catalog) : Nat :=
  catalog.messages.length

end Catalog

end DocHarvest
