import DocHarvest.Cause
import DocHarvest.Config.Lookup
import DocHarvest.Files.Tree
import DocHarvest.Json
import DocHarvest.Yaml.Document

/-!
# The Configuration File

Which file the settings are read from, and what it says. A file can be named; otherwise it is
searched for in the working directory and in the user's configuration directory.

## Main definitions

* `Config.find` — the file that a search finds.
* `Config.read` — the fields of a file.
* `Config.load` — the file in use, and its fields.
-/

namespace DocHarvest

open Files (Tree Path Entry)

/-- Why there are no settings from a file. -/
inductive ConfigError
  | notFound
  | malformed
  | unsupported (kind : Bytes)
  | outside (cause : Cause)
  deriving DecidableEq, Repr

/-- The words for a configuration that could not be used. Whether a file is there and whether it
is well formed are no matters to speak of. -/
def ConfigError.message? : ConfigError → Option Bytes
  | notFound => none
  | malformed => none
  | unsupported kind => some (utf8 "Unsupported Config Type " ++ Text.quoted kind)
  | outside cause => some cause.message

namespace Config

/-! ### Searching -/

/-- The name of configuration files and of the directory they are kept in. -/
def baseName : Bytes := utf8 "extradoc"

/-- The kinds of configuration files, as their names end. -/
def kinds : List Bytes :=
  ["json", "toml", "yaml", "yml", "properties", "props", "prop", "hcl", "tfvars", "dotenv", "env",
    "ini"].map utf8

/-- The names under which a file is searched for, in order. -/
def fileNames : List Bytes :=
  kinds.map (fun kind => baseName ++ utf8 "." ++ kind) ++ [baseName]

/-- The directories in which a file is searched for, in order. -/
def directories (tree : Tree) (env : Environment) : List Files.Location :=
  let home := env.get (utf8 "HOME")
  if home.isEmpty then [tree.workingDirectory]
  else [tree.workingDirectory,
    Path.resolve tree.workingDirectory home ++ [utf8 ".config", baseName]]

/-- All paths at which a file is searched for, in order. -/
def candidates (tree : Tree) (env : Environment) : List Bytes :=
  (directories tree env).flatMap fun directory =>
    fileNames.map fun name => Path.absolute (directory ++ [name])

/-- Whether a path leads to a file. A path that cannot be inspected for another reason than that
nothing is there makes the whole search fail. -/
def isFileAt (tree : Tree) (path : Bytes) : Except ConfigError Bool :=
  match tree.inspect path with
  | .ok (.file ..) => .ok true
  | .ok _ => .ok false
  | .error .missing => .ok false
  | .error fault => .error (.outside (.file .inspecting path fault))

/-- The file that a search finds. -/
def find (tree : Tree) (env : Environment) : Except ConfigError Bytes := do
  let found ← (candidates tree env).filterM (isFileAt tree)
  match found with
  | path :: _ => .ok path
  | [] => .error .notFound

/-! ### Reading -/

/-- The formats that files can be read in. -/
inductive FileFormat
  | yaml
  | json
  deriving DecidableEq, Repr

/-- The fields of a file's content. -/
def FileFormat.fields? : FileFormat → Bytes → Option Fields
  | yaml => Yaml.fields?
  | json => Json.fields?

/-- The format that files of a kind are in, if they can be read at all. -/
def formatOf? (kind : Bytes) : Option FileFormat :=
  if kind = utf8 "yaml" || kind = utf8 "yml" then some .yaml
  else if kind = utf8 "json" then some .json
  else none

/-- The fields of the file at a path. -/
def read (tree : Tree) (path : Bytes) (format? : Option FileFormat) :
    Except ConfigError Fields :=
  match tree.contents path with
  | .error (operation, fault) => .error (.outside (.file operation path fault))
  | .ok content =>
    match format?.bind fun format => format.fields? content with
    | some fields => .ok fields
    | none => .error .malformed

/-- The file in use and its fields. A file that is named has a kind, and one that is found counts
as YAML whatever its name. -/
def load (tree : Tree) (env : Environment) (named : Bytes) :
    Except ConfigError (Bytes × Fields) := do
  if named.isEmpty then
    let path ← find tree env
    .ok (path, ← read tree path (some .yaml))
  else
    let kind := (Path.extension? named).getD []
    if kinds.contains kind then .ok (named, ← read tree named (formatOf? kind))
    else .error (.unsupported kind)

/-- The fields of a file that may have failed to load: then there are none. -/
def fieldsOf (loaded : Except ConfigError (Bytes × Fields)) : Fields :=
  match loaded with
  | .ok (_, fields) => fields
  | .error _ => []

end Config

end DocHarvest
