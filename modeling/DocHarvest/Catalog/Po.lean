import DocHarvest.Catalog

/-!
# The Text of a Catalog

A catalog is written in the PO format: a header entry, then one entry for each message with
a line of references, the message's text and an empty `msgstr`. A text is written as a run of
quoted strings, one for each of its lines.

## Main definitions

* `Po.escape` — a text with its special characters escaped.
* `Po.quotedLines` — a text as quoted strings.
* `Catalog.text` — a catalog in the PO format.
-/

namespace DocHarvest

namespace Po

/-- The form of a byte inside a quoted string. -/
def escapeByte (b : UInt8) : Bytes :=
  if b = Byte.backslash then utf8 "\\\\"
  else if b = Byte.doubleQuote then utf8 "\\\""
  else if b = Byte.tab then utf8 "\\t"
  else [b]

/-- A text inside a quoted string. -/
def escape (s : Bytes) : Bytes :=
  s.flatMap escapeByte

/-- A quoted string on a line of its own. -/
def quotedLine (inside : Bytes) : Bytes :=
  utf8 "\"" ++ inside ++ utf8 "\"\n"

/-- The pieces of a text between line feeds, each as a quoted string that ends with an
escaped line feed, the last one without it. An empty last piece is not written. -/
def quotedPieces : List Bytes → Bytes
  | [] => []
  | [piece] => if piece.isEmpty then [] else quotedLine (escape piece)
  | piece :: others => quotedLine (escape piece ++ utf8 "\\n") ++ quotedPieces others

/-- A text as quoted strings. -/
def quotedLines (s : Bytes) : Bytes :=
  if s.isEmpty then quotedLine [] else quotedPieces (Bytes.splitAt Byte.lineFeed s)

/-- The names and values in a catalog's header, in order. -/
def headerFields (h : CatalogHeader) : List (String × Bytes) :=
  [("Project-Id-Version", h.projectIdVersion),
    ("Report-Msgid-Bugs-To", h.reportMsgidBugsTo),
    ("POT-Creation-Date", h.potCreationDate),
    ("PO-Revision-Date", h.poRevisionDate),
    ("Last-Translator", h.lastTranslator),
    ("Language-Team", h.languageTeam),
    ("MIME-Version", h.mimeVersion),
    ("Content-Type", h.contentType),
    ("Content-Transfer-Encoding", h.contentTransferEncoding)]

/-- A header field on a line of its own. Its value is written as it is. -/
def headerLine (name : String) (value : Bytes) : Bytes :=
  quotedLine (utf8 name ++ utf8 ": " ++ value ++ utf8 "\\n")

/-- The header entry. -/
def header (h : CatalogHeader) : Bytes :=
  utf8 "msgid \"\"\nmsgstr \"\"\n" ++
    (headerFields h).flatMap fun (name, value) => headerLine name value

/-- A place in a line of references. -/
def reference (o : Occurrence) : Bytes :=
  utf8 " " ++ o.source ++ utf8 ":" ++ decimal o.line

/-- The entry of a message. -/
def entry (m : Message) : Bytes :=
  utf8 "#:" ++ m.occurrences.flatMap reference ++ utf8 "\n" ++
    utf8 "msgid " ++ quotedLines m.text ++ utf8 "msgstr \"\"\n"

end Po

/-- A catalog in the PO format. -/
def Catalog.text (catalog : Catalog) : Bytes :=
  Po.header catalog.header ++ catalog.messages.flatMap fun m => utf8 "\n" ++ Po.entry m

end DocHarvest
