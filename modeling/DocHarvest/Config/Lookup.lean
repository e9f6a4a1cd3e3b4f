import DocHarvest.Bytes.Utf8
import DocHarvest.Config.Value
import DocHarvest.Environment
import DocHarvest.Settings

/-!
# Looking Up Settings

Where the value of a setting comes from: a variable of the environment, a field of the
configuration file, or the default, in this order. Files name settings without regard to the
case of letters, in a table for each section or with the section's name and a dot in front.

## Main definitions

* `Key.variableName`, `Key.Section.variableName` — the variables that stand for settings and
  sections.
* `Config.fieldOf?` — the value that a file's fields give to a setting.
* `Config.setting` — the value of a setting.
* `Config.settings` — all settings.
-/

namespace DocHarvest

/-! ### Names -/

/-- The upper-case form of a name made of lower-case letters and underscores. -/
def upper (name : String) : Bytes :=
  utf8Chars (name.toList.map Char.toUpper)

/-- The variable that stands for a whole section. -/
def Key.Section.variableName (group : Key.Section) : Bytes :=
  utf8 "EXTRADOC_" ++ upper group.name

/-- The variable that gives a setting. -/
def Key.variableName (key : Key) : Bytes :=
  key.group.variableName ++ utf8 "_" ++ upper key.name

/-- The name of a setting outside its section's table. -/
def Key.dottedName (key : Key) : Bytes :=
  utf8 key.group.name ++ utf8 "." ++ utf8 key.name

/-- The lower-case form of a character, as far as it is a letter of ASCII. Two characters outside
ASCII have such a form as well: the capital I with a dot and the sign for kelvin. -/
def lowerChar (c : Char) : Char :=
  if c = '\u0130' then 'i' else if c = '\u212a' then 'k' else c.toLower

/-- The form of a field's name in which names are compared. -/
def lowered (name : Bytes) : Bytes :=
  utf8Chars ((Utf8.charsLossy name).map lowerChar)

namespace Config

/-! ### Fields of a file -/

/-- The field that counts under a name. Where a name is spelled in several ways, a spelling with
capital letters counts before the one in small letters. -/
def fieldNamed? (fields : Fields) (name : Bytes) : Option (Value × Value) :=
  let named := fields.filter fun (key, _) => lowered key.asText = name
  (named.find? fun (key, _) => key.asText ≠ name).or named.head?

/-- The value of the field with a name, unless it is missing. -/
def field? (fields : Fields) (name : Bytes) : Option Value :=
  match fieldNamed? fields name with
  | some (_, value) => if value.isNull then none else some value
  | none => none

/-- The value that a file's fields give to a setting: under its dotted name, or else in the
table of its section. -/
def fieldOf? (fields : Fields) (key : Key) : Option Value :=
  match field? fields key.dottedName with
  | some value => some value
  | none =>
    match (field? fields (utf8 key.group.name)).bind Value.fields? with
    | some inner => field? inner (utf8 key.name)
    | none => none

/-- Whether something other than a table stands in the place of a section, which hides the
defaults of its settings. -/
def hidesSection (fields : Fields) (group : Key.Section) : Bool :=
  match field? fields (utf8 group.name) with
  | some value => value.fields?.isNone
  | none => false

/-! ### Settings -/

/-- The value of a setting, given the environment and the fields of the configuration file. A
variable for the whole section hides the file and the defaults. -/
def setting (env : Environment) (fields : Fields) (key : Key) : Bytes :=
  let own := env.get key.variableName
  if !own.isEmpty then own
  else if !(env.get key.group.variableName).isEmpty then []
  else
    match fieldOf? fields key with
    | some value => value.asText
    | none => if hidesSection fields key.group then [] else key.default

/-- All settings, given the environment and the fields of the configuration file. -/
def settings (env : Environment) (fields : Fields) : Settings :=
  Settings.ofFunction (setting env fields)

end Config

end DocHarvest
