import DocHarvest.Bytes

/-!
# Settings

Twelve texts steer the program: three say how the formatter is called, nine fill the header
of the catalog. `Key` names each of them once; records, defaults, files, environment
variables and the printed form are all built over the keys.

## Main definitions

* `Key` — the name of one setting, with its section and its name in that section.
* `Settings` — all settings; `Settings.get` and `Settings.ofFunction` view them by key.
* `Settings.default` — the settings in force when nothing else is said.
-/

namespace DocHarvest

/-- The sections that settings are grouped in. -/
inductive Key.Section
  | formatter
  | catalog
  deriving DecidableEq, Repr

/-- The name of a section. -/
def Key.Section.name : Key.Section → String
  | formatter => "formatter"
  | catalog => "catalog"

/-- The names of the settings. -/
inductive Key
  | command
  | setupEval
  | exportEval
  | projectIdVersion
  | reportMsgidBugsTo
  | potCreationDate
  | poRevisionDate
  | lastTranslator
  | languageTeam
  | mimeVersion
  | contentType
  | contentTransferEncoding
  deriving DecidableEq, Repr

namespace Key

/-- The section a setting belongs to. -/
def group : Key → Section
  | command | setupEval | exportEval => .formatter
  | _ => .catalog

/-- The name of a setting inside its section. -/
def name : Key → String
  | command => "command"
  | setupEval => "setup_eval"
  | exportEval => "export_eval"
  | projectIdVersion => "project_id_version"
  | reportMsgidBugsTo => "report_msgid_bugs_to"
  | potCreationDate => "pot_creation_date"
  | poRevisionDate => "po_revision_date"
  | lastTranslator => "last_translator"
  | languageTeam => "language_team"
  | mimeVersion => "mime_version"
  | contentType => "content_type"
  | contentTransferEncoding => "content_transfer_encoding"

/-- The settings of the formatter, in order. -/
def ofFormatter : List Key := [command, setupEval, exportEval]

/-- The settings of the catalog, in order. -/
def ofCatalog : List Key :=
  [projectIdVersion, reportMsgidBugsTo, potCreationDate, poRevisionDate, lastTranslator,
    languageTeam, mimeVersion, contentType, contentTransferEncoding]

/-- All settings, in order. -/
def all : List Key := ofFormatter ++ ofCatalog

/-- The value of a setting when nothing else is said. -/
def default : Key → Bytes
  | command => utf8 "emacs"
  | setupEval => utf8 "(setq org-export-allow-BIND t)"
  | exportEval => utf8 "(org-export-as-%s nil)"
  | projectIdVersion => utf8 "1.0"
  | reportMsgidBugsTo => utf8 "you@example.com"
  | potCreationDate => utf8 "2007-10-18 14:00+0100"
  | poRevisionDate => utf8 "2007-10-18 14:00+0100"
  | lastTranslator => utf8 "you <you@example.com>"
  | languageTeam => utf8 "English <yourteam@example.com>"
  | mimeVersion => utf8 "1.0"
  | contentType => utf8 "text/plain; charset=utf-8"
  | contentTransferEncoding => utf8 "8bit"

end Key

/-- How the formatter is called. -/
structure FormatterSettings where
  /-- The program to start. -/
  command : Bytes
  /-- The expression evaluated first. -/
  setupEval : Bytes
  /-- The template of the expression that exports, with a place for the format's name. -/
  exportEval : Bytes
  deriving DecidableEq, Repr

/-- The header of a catalog. -/
structure CatalogHeader where
  projectIdVersion : Bytes
  reportMsgidBugsTo : Bytes
  potCreationDate : Bytes
  poRevisionDate : Bytes
  lastTranslator : Bytes
  languageTeam : Bytes
  mimeVersion : Bytes
  contentType : Bytes
  contentTransferEncoding : Bytes
  deriving DecidableEq, Repr

/-- All settings. -/
structure Settings where
  formatter : FormatterSettings
  catalog : CatalogHeader
  deriving DecidableEq, Repr

namespace Settings

/-- The value of a setting. -/
def get (s : Settings) : Key → Bytes
  | .command => s.formatter.command
  | .setupEval => s.formatter.setupEval
  | .exportEval => s.formatter.exportEval
  | .projectIdVersion => s.catalog.projectIdVersion
  | .reportMsgidBugsTo => s.catalog.reportMsgidBugsTo
  | .potCreationDate => s.catalog.potCreationDate
  | .poRevisionDate => s.catalog.poRevisionDate
  | .lastTranslator => s.catalog.lastTranslator
  | .languageTeam => s.catalog.languageTeam
  | .mimeVersion => s.catalog.mimeVersion
  | .contentType => s.catalog.contentType
  | .contentTransferEncoding => s.catalog.contentTransferEncoding

/-- The settings with the given values. -/
def ofFunction (value : Key → Bytes) : Settings where
  formatter :=
    { command := value .command
      setupEval := value .setupEval
      exportEval := value .exportEval }
  catalog :=
    { projectIdVersion := value .projectIdVersion
      reportMsgidBugsTo := value .reportMsgidBugsTo
      potCreationDate := value .potCreationDate
      poRevisionDate := value .poRevisionDate
      lastTranslator := value .lastTranslator
      languageTeam := value .languageTeam
      mimeVersion := value .mimeVersion
      contentType := value .contentType
      contentTransferEncoding := value .contentTransferEncoding }

/-- Settings made from a function hold its values. -/
@[simp] theorem get_ofFunction (value : Key → Bytes) (key : Key) :
    (ofFunction value).get key = value key := by
  cases key <;> rfl

/-- Settings are made from their own values. -/
@[simp] theorem ofFunction_get (s : Settings) : ofFunction s.get = s := rfl

/-- The settings in force when nothing else is said. -/
def default : Settings := ofFunction Key.default

end Settings

end DocHarvest
