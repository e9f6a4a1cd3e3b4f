import Mathlib.Data.List.Nodup
import DocHarvest.Proofs.Config.Precedence
import DocHarvest.Proofs.Yaml.RoundTrip

/-!
# Reading Printed Settings

Settings are printed as a document that a configuration file may hold. When no variable of the
environment speaks for a setting, reading the file gives the settings back, with one exception: a
text that is printed as a literal block and starts with a tab makes the file unreadable.

## Main definitions

* `Settings.parts` — the sections that settings are printed as.
* `Config.InUse` — the configuration file in use.

## Main results

* `Settings.yaml_eq` — the printed form is the text of the sections.
* `Config.fields?_yaml`, `Config.fields?_yaml_refused` — what a printed file holds.
* `Config.setting_parts` — what it says about a setting.
* `Config.load_yaml_iff` — the settings that are read back as themselves.
-/

namespace DocHarvest

open Yaml (Refused IsTextName)

/-! ### Settings as sections -/

namespace Settings

variable {settings : Settings}

/-- The characters of a setting's value. -/
def chars (settings : Settings) (key : Key) : List Char :=
  (Utf8.chars? (settings.get key)).getD []

/-- A value that is text is read as its characters. -/
theorem chars?_get {key : Key} (h : Utf8.IsText (settings.get key)) :
    Utf8.chars? (settings.get key) = some (settings.chars key) := by
  obtain ⟨cs, hcs⟩ := h
  rw [chars, ← hcs, Utf8.chars?_utf8Chars, Option.getD_some]

/-- A value that is text is the encoding of its characters. -/
theorem utf8Chars_chars {key : Key} (h : Utf8.IsText (settings.get key)) :
    utf8Chars (settings.chars key) = settings.get key := by
  obtain ⟨cs, hcs⟩ := h
  rw [chars, ← hcs, Utf8.chars?_utf8Chars, Option.getD_some]

/-- A setting as an entry of its section. -/
def entry (settings : Settings) (key : Key) : Yaml.Entry where
  name := key.name.toList
  value := settings.chars key

/-- Settings as a section. -/
def part (settings : Settings) (group : Key.Section) (first : Key) (others : List Key) :
    Yaml.Section where
  name := group.name.toList
  first := settings.entry first
  others := others.map settings.entry

/-- The section of the formatter. -/
def formatterPart (settings : Settings) : Yaml.Section :=
  settings.part .formatter .command [.setupEval, .exportEval]

/-- The section of the catalog. -/
def catalogPart (settings : Settings) : Yaml.Section :=
  settings.part .catalog .projectIdVersion
    [.reportMsgidBugsTo, .potCreationDate, .poRevisionDate, .lastTranslator, .languageTeam,
      .mimeVersion, .contentType, .contentTransferEncoding]

/-- The sections that settings are printed as. -/
def parts (settings : Settings) : List Yaml.Section :=
  [settings.formatterPart, settings.catalogPart]

/-- A printed setting is the line of its entry. -/
theorem yamlEntry_eq {key : Key} (h : Utf8.IsText (settings.get key)) :
    settings.yamlEntry key = Yaml.indentation 1 ++ (settings.entry key).line := by
  have hwritten : Yaml.written 2 (settings.chars key) ≠ [] := by
    obtain ⟨c, rest, hcons, -⟩ := Yaml.exists_written_eq (settings.chars key)
    simp [hcons]
  have hbytes : Yaml.writtenBytes 2 (settings.get key) = Yaml.written 2 (settings.chars key) := by
    rw [Yaml.writtenBytes, chars?_get h]
  have hline : ∀ written, Yaml.indentation 1 ++ key.name.toList ++ ':' :: ' ' :: written =
      (Yaml.indentation 1 ++ key.name.toList ++ [':', ' ']) ++ written := by
    simp
  rw [yamlEntry, hbytes, hline, Yaml.endLine_append hwritten]
  simp [Yaml.Entry.line, entry]

/-- **The printed form** is the text of the sections. -/
theorem yaml_eq (h : ∀ key, Utf8.IsText (settings.get key)) :
    settings.yaml = settings.parts.flatMap Yaml.Section.text := by
  have hlines : ∀ keys : List Key,
      keys.flatMap settings.yamlEntry = Yaml.lines (keys.map settings.entry) := by
    intro keys
    have hentry : settings.yamlEntry = fun key => Yaml.indentation 1 ++ (settings.entry key).line :=
      funext fun key => yamlEntry_eq (h key)
    rw [Yaml.lines, List.flatMap_map, hentry]
  simp only [yaml, hlines]
  simp [parts, formatterPart, catalogPart, part, Yaml.Section.text, Yaml.Section.entries,
    Key.ofFormatter, Key.ofCatalog]

/-! ### Names -/

/-- The names of the settings are read as text. -/
theorem isTextName_name (key : Key) : IsTextName key.name.toList := by
  have hname : ∀ key ∈ Key.all, (Yaml.isName key.name.toList = true ∧
      key.name.toList.length ≤ Yaml.maxKey) ∧
        Yaml.isText (Yaml.resolvePlain key.name.toList) = true := by
    decide +kernel
  obtain ⟨⟨hname, hshort⟩, htext⟩ := Key.forall_of_all hname key
  exact ⟨⟨hname, hshort⟩, htext⟩

/-- The names of the sections are read as text. -/
theorem isTextName_group (group : Key.Section) : IsTextName group.name.toList := by
  cases group <;> exact ⟨⟨by decide, by decide⟩, by decide +kernel⟩

/-- A section whose settings have different names is well named. -/
theorem wellNamed_part {group : Key.Section} {first : Key} {others : List Key}
    (hnodup : ((first :: others).map fun key => key.name.toList).Nodup) :
    (settings.part group first others).WellNamed where
  name := isTextName_group group
  entries := by
    intro entry hentry
    obtain ⟨key, -, rfl⟩ : ∃ key ∈ first :: others, settings.entry key = entry :=
      List.mem_map.mp hentry
    exact isTextName_name key
  nodup := by
    show (((first :: others).map settings.entry).map Yaml.Entry.name).Nodup
    rw [List.map_map]
    exact hnodup

/-- The sections of the settings are well named. -/
theorem wellNamed_parts : ∀ p ∈ settings.parts, p.WellNamed := by
  simp only [parts, List.forall_mem_cons, List.not_mem_nil, false_imp_iff, implies_true, and_true]
  exact ⟨wellNamed_part (by decide), wellNamed_part (by decide)⟩

/-- The sections of the settings have different names. -/
theorem nodup_parts : (settings.parts.map Yaml.Section.name).Nodup := by
  show ["formatter".toList, "catalog".toList].Nodup
  decide

/-- Every setting is an entry of the section it belongs to. -/
theorem exists_part (settings : Settings) (key : Key) :
    ∃ part ∈ settings.parts, part.name = key.group.name.toList ∧
      settings.entry key ∈ part.entries := by
  have hkey : key ∈ Key.ofFormatter ∧ key.group = .formatter ∨
      key ∈ Key.ofCatalog ∧ key.group = .catalog := by
    cases key <;> decide
  obtain ⟨hmem, hgroup⟩ | ⟨hmem, hgroup⟩ := hkey
  · exact ⟨settings.formatterPart, List.mem_cons_self, by rw [hgroup]; rfl,
      List.mem_map_of_mem (f := settings.entry) hmem⟩
  · exact ⟨settings.catalogPart, by simp [parts], by rw [hgroup]; rfl,
      List.mem_map_of_mem (f := settings.entry) hmem⟩

/-- A printed section has the name of one, and its entries are settings. -/
theorem part_eq {part : Yaml.Section} (h : part ∈ settings.parts) :
    ∃ (group : Key.Section) (keys : List Key), part.name = group.name.toList ∧
      part.entries = keys.map settings.entry := by
  obtain rfl | rfl : part = settings.formatterPart ∨ part = settings.catalogPart := by
    simpa [parts] using h
  · exact ⟨.formatter, Key.ofFormatter, rfl, rfl⟩
  · exact ⟨.catalog, Key.ofCatalog, rfl, rfl⟩

end Settings

/-! ### Looking up fields -/

namespace Config

/-- A name in small letters stays as it is when it is made small. -/
theorem lowered_utf8Chars {name : List Char} (h : name.map lowerChar = name) :
    lowered (utf8Chars name) = utf8Chars name := by
  rw [lowered, Utf8.charsLossy_utf8Chars, h]

/-- The names of the settings are in small letters. -/
theorem map_lowerChar_name : ∀ key : Key, key.name.toList.map lowerChar = key.name.toList :=
  Key.forall_of_all (by decide +kernel)

/-- The names of the sections are in small letters. -/
theorem map_lowerChar_group (group : Key.Section) :
    group.name.toList.map lowerChar = group.name.toList := by
  cases group <;> decide

/-- The name of a setting outside its section is not that of a section. -/
theorem dottedName_eq (key : Key) :
    ∃ dotted : List Char, key.dottedName = utf8Chars dotted ∧
      ∀ group : Key.Section, group.name.toList ≠ dotted := by
  refine ⟨key.group.name.toList ++ ['.'] ++ key.name.toList, ?_, fun group => ?_⟩
  · rw [utf8Chars_append, utf8Chars_append]
    rfl
  · have hpoint : '.' ∉ group.name.toList := by cases group <;> decide
    intro heq
    rw [heq] at hpoint
    simp at hpoint

variable {fields : List Yaml.Field}

/-- In a table with names in lower case, a name is found as it is written. -/
theorem fieldNamed?_table (hlower : ∀ f ∈ fields, f.name.map lowerChar = f.name)
    (name : List Char) :
    fieldNamed? (Yaml.table fields) (utf8Chars name) =
      (fields.find? fun f => f.name = name).map fun f => (.text (utf8Chars f.name), f.value) := by
  have hkey : ∀ f ∈ fields, lowered (utf8Chars f.name) = utf8Chars name ↔ f.name = name := by
    intro f hf
    rw [lowered_utf8Chars (hlower f hf)]
    exact ⟨fun h => Utf8.utf8Chars_injective h, fun h => by rw [h]⟩
  have hunder : (Yaml.table fields).under (utf8Chars name) =
      Yaml.table (fields.filter fun f => f.name = name) := by
    rw [Fields.under, Yaml.table, List.filter_map, Yaml.table]
    refine congrArg (List.map _) (List.filter_congr fun f hf => ?_)
    simp only [Function.comp_apply, Value.asText, hkey f hf]
  have hcapital : (Yaml.table (fields.filter fun f => f.name = name)).find?
      (fun pair => pair.1.asText ≠ utf8Chars name) = none := by
    rw [List.find?_eq_none]
    intro pair hpair
    obtain ⟨f, hf, rfl⟩ := List.mem_map.mp hpair
    have hname : f.name = name := by simpa using (List.mem_filter.mp hf).2
    simp [Value.asText, hname]
  rw [fieldNamed?_eq, hunder, hcapital, Option.none_or, Yaml.table, List.head?_map,
    List.head?_filter]

/-- A field of a table with names in lower case is found under its name. -/
theorem field?_table (hlower : ∀ f ∈ fields, f.name.map lowerChar = f.name)
    (hnames : (fields.map Yaml.Field.name).Nodup) {field : Yaml.Field} (hfield : field ∈ fields)
    (hnull : field.value.isNull = false) :
    field? (Yaml.table fields) (utf8Chars field.name) = some field.value := by
  have hfound : fields.find? (fun f => f.name = field.name) = some field := by
    cases hfind : fields.find? fun f => f.name = field.name with
    | none => exact absurd (List.find?_eq_none.mp hfind field hfield) (by simp)
    | some found =>
      have hname : found.name = field.name := by simpa using List.find?_some hfind
      rw [List.inj_on_of_nodup_map hnames (List.mem_of_find?_eq_some hfind) hfield hname]
  simp [field?, fieldNamed?_table hlower, hfound, hnull]

/-- Under another name nothing is found. -/
theorem field?_table_none (hlower : ∀ f ∈ fields, f.name.map lowerChar = f.name) {name : List Char}
    (hname : ∀ f ∈ fields, f.name ≠ name) :
    field? (Yaml.table fields) (utf8Chars name) = none := by
  have hfind : fields.find? (fun f => f.name = name) = none := by
    simpa using hname
  rw [field?, fieldNamed?_table hlower, hfind]
  rfl

/-- **What a printed file says about a setting**: its text. -/
theorem fieldOf?_parts (settings : Settings) (key : Key) :
    fieldOf? (Yaml.table (settings.parts.map Yaml.Section.field)) key =
      some (.text (utf8Chars (settings.chars key))) := by
  obtain ⟨part, hpart, hname, hentry⟩ := settings.exists_part key
  have hlower : ∀ f ∈ settings.parts.map Yaml.Section.field, f.name.map lowerChar = f.name := by
    intro f hf
    obtain ⟨other, hother, rfl⟩ := List.mem_map.mp hf
    obtain ⟨group, -, hgroup, -⟩ := Settings.part_eq hother
    show other.name.map lowerChar = other.name
    rw [hgroup, map_lowerChar_group]
  have hlower' : ∀ f ∈ part.entries.map Yaml.Entry.field, f.name.map lowerChar = f.name := by
    intro f hf
    obtain ⟨-, keys, -, hkeys⟩ := Settings.part_eq hpart
    rw [hkeys, List.map_map] at hf
    obtain ⟨other, -, rfl⟩ := List.mem_map.mp hf
    exact map_lowerChar_name other
  have hdotted : field? (Yaml.table (settings.parts.map Yaml.Section.field)) key.dottedName =
      none := by
    obtain ⟨dotted, heq, hne⟩ := dottedName_eq key
    rw [heq]
    refine field?_table_none hlower fun f hf => ?_
    obtain ⟨other, hother, rfl⟩ := List.mem_map.mp hf
    obtain ⟨group, -, hgroup, -⟩ := Settings.part_eq hother
    show other.name ≠ dotted
    rw [hgroup]
    exact hne group
  have hgroup : field? (Yaml.table (settings.parts.map Yaml.Section.field)) (utf8 key.group.name) =
      some (.table (Yaml.table (part.entries.map Yaml.Entry.field))) := by
    have hfield : part.field ∈ settings.parts.map Yaml.Section.field := List.mem_map_of_mem hpart
    have hfound := field?_table hlower (by rw [List.map_map]; exact Settings.nodup_parts) hfield rfl
    rwa [show part.field.name = _ from hname] at hfound
  have hinner : field? (Yaml.table (part.entries.map Yaml.Entry.field)) (utf8 key.name) =
      some (.text (utf8Chars (settings.chars key))) := by
    have hfield : (settings.entry key).field ∈ part.entries.map Yaml.Entry.field :=
      List.mem_map_of_mem hentry
    exact field?_table hlower'
      (by rw [List.map_map]; exact (Settings.wellNamed_parts part hpart).nodup) hfield rfl
  rw [fieldOf?, hdotted, hgroup]
  exact hinner

/-- Without variables of the environment, a printed file decides. -/
theorem setting_parts {env : Environment}
    (henv : ∀ name, utf8 "EXTRADOC_" <+: name → env.get name = []) (settings : Settings)
    (key : Key) :
    setting env (Yaml.table (settings.parts.map Yaml.Section.field)) key =
      utf8Chars (settings.chars key) := by
  have hgroup : env.get key.group.variableName = [] := henv _ (List.prefix_append _ _)
  have hkey : env.get key.variableName = [] := by
    refine henv _ ?_
    rw [Key.variableName, Key.Section.variableName, List.append_assoc, List.append_assoc]
    exact List.prefix_append _ _
  rw [setting, hkey, hgroup, fieldOf?_parts]
  rfl

/-! ### Reading printed files -/

/-- **The fields of a printed file** whose values can all be read. -/
theorem fields?_yaml {settings : Settings} (htext : ∀ key, Utf8.IsText (settings.get key))
    (hvalues : ∀ key, ¬Refused (settings.chars key)) :
    Yaml.fields? (utf8Chars settings.yaml) =
      some (Yaml.table (settings.parts.map Yaml.Section.field)) := by
  rw [Settings.yaml_eq htext]
  refine Yaml.fields?_sections Settings.wellNamed_parts Settings.nodup_parts fun part hpart => ?_
  obtain ⟨-, keys, -, hkeys⟩ := Settings.part_eq hpart
  intro entry hentry
  rw [hkeys] at hentry
  obtain ⟨key, -, rfl⟩ := List.mem_map.mp hentry
  exact hvalues key

/-- **A printed file with a value that is refused** cannot be read. -/
theorem fields?_yaml_refused {settings : Settings}
    (htext : ∀ key, Utf8.IsText (settings.get key)) {key : Key}
    (hvalue : Refused (settings.chars key)) :
    Yaml.fields? (utf8Chars settings.yaml) = none := by
  rw [Settings.yaml_eq htext]
  obtain ⟨part, hpart, -, hentry⟩ := settings.exists_part key
  exact Yaml.fields?_refused Settings.wellNamed_parts
    ⟨part, hpart, fun hreadable => hreadable _ hentry hvalue⟩

/-- The configuration file in use: one that is named as a file of YAML, or else the one that the
search finds. -/
inductive InUse (tree : Files.Tree) (env : Environment) : (named path : Bytes) → Prop
  | found {path : Bytes} : find tree env = .ok path → InUse tree env [] path
  | named {path : Bytes} : path ≠ [] →
      Files.Path.extension? path = some (utf8 "yaml") ∨
        Files.Path.extension? path = some (utf8 "yml") → InUse tree env path path

/-- Loading reads the file in use. -/
theorem InUse.load_eq {tree : Files.Tree} {env : Environment} {named path content : Bytes}
    (h : InUse tree env named path) (hcontents : tree.contents path = .ok content) :
    load tree env named =
      match Yaml.fields? content with
      | some fields => .ok (path, fields)
      | none => .error .malformed := by
  have hread : read tree path (some .yaml) =
      match Yaml.fields? content with
      | some fields => .ok fields
      | none => .error .malformed := by
    rw [read, hcontents]
    rfl
  cases h with
  | found hfind =>
    have hload : load tree env [] =
        (read tree path (some .yaml)).map fun fields => (path, fields) := by
      simp only [load, hfind]
      rfl
    rw [hload, hread]
    cases Yaml.fields? content <;> rfl
  | named hnamed hkind =>
    have hload : load tree env named =
        (read tree named (some .yaml)).map fun fields => (named, fields) := by
      obtain ⟨kind, hextension, hkind, hformat⟩ : ∃ kind,
          Files.Path.extension? named = some kind ∧ kinds.contains kind = true ∧
            formatOf? kind = some .yaml := by
        obtain hkind | hkind := hkind
        · exact ⟨_, hkind, by decide, by decide⟩
        · exact ⟨_, hkind, by decide, by decide⟩
      have hempty : named.isEmpty = false := by simpa using hnamed
      simp only [load, hempty, hextension, Option.getD_some, hkind, hformat]
      rfl
    rw [hload, hread]
    cases Yaml.fields? content <;> rfl

/-! ### Loading printed files -/

/-- The settings that a printed file says are those that were printed. -/
theorem settings_parts {env : Environment}
    (henv : ∀ name, utf8 "EXTRADOC_" <+: name → env.get name = []) {settings : Settings}
    (htext : ∀ key, Utf8.IsText (settings.get key)) :
    Config.settings env (Yaml.table (settings.parts.map Yaml.Section.field)) = settings := by
  have hvalues : setting env (Yaml.table (settings.parts.map Yaml.Section.field)) = settings.get :=
    funext fun key => by rw [setting_parts henv, Settings.utf8Chars_chars (htext key)]
  rw [Config.settings, hvalues, Settings.ofFunction_get]

section Loading

variable {settings : Settings} {tree : Files.Tree} {env : Environment} {named path : Bytes}

/-- **A printed file is loaded** when none of its values is refused. -/
theorem load_yaml (htext : ∀ key, Utf8.IsText (settings.get key))
    (hvalues : ∀ key, ¬Refused (settings.chars key)) (hpath : InUse tree env named path)
    (hcontents : tree.contents path = .ok (utf8Chars settings.yaml)) :
    load tree env named = .ok (path, Yaml.table (settings.parts.map Yaml.Section.field)) := by
  rw [hpath.load_eq hcontents, fields?_yaml htext hvalues]

/-- With a value that is refused it is malformed. -/
theorem load_yaml_refused (htext : ∀ key, Utf8.IsText (settings.get key)) {key : Key}
    (hvalue : Refused (settings.chars key)) (hpath : InUse tree env named path)
    (hcontents : tree.contents path = .ok (utf8Chars settings.yaml)) :
    load tree env named = .error .malformed := by
  rw [hpath.load_eq hcontents, fields?_yaml_refused htext hvalue]

/-- **Printed settings are read back as themselves** exactly when none of the values is printed as a
literal block that starts with a tab. When one is, the file is malformed. -/
theorem load_yaml_iff (htext : ∀ key, Utf8.IsText (settings.get key))
    (henv : ∀ name, utf8 "EXTRADOC_" <+: name → env.get name = [])
    (hpath : InUse tree env named path)
    (hcontents : tree.contents path = .ok (utf8Chars settings.yaml)) :
    ((∃ fields, load tree env named = .ok (path, fields) ∧ Config.settings env fields = settings) ↔
        ∀ key, ¬Refused (settings.chars key)) ∧
      (load tree env named = .error .malformed ↔ ∃ key, Refused (settings.chars key)) := by
  by_cases hvalues : ∀ key, ¬Refused (settings.chars key)
  · have hload := load_yaml htext hvalues hpath hcontents
    refine ⟨⟨fun _ => hvalues, fun _ => ⟨_, hload, settings_parts henv htext⟩⟩, ?_, ?_⟩
    · intro hmalformed
      cases hmalformed.symm.trans hload
    · rintro ⟨key, hkey⟩
      exact absurd hkey (hvalues key)
  · obtain ⟨key, hkey⟩ := not_forall_not.mp hvalues
    have hmalformed := load_yaml_refused htext hkey hpath hcontents
    refine ⟨⟨?_, fun hall => absurd hall hvalues⟩, fun _ => ⟨key, hkey⟩, fun _ => hmalformed⟩
    rintro ⟨fields, hload, -⟩
    cases hmalformed.symm.trans hload

end Loading

/-! ### A directory with nothing but a printed file -/

namespace Sample

/-- The tree that holds printed settings. -/
def tree (settings : Settings) : Files.Tree where
  entries := [([utf8 "extradoc.yaml"], .file (utf8Chars settings.yaml) false)]

/-- The search finds the file. -/
theorem inUse (settings : Settings) :
    InUse (tree settings) [] [] (utf8 "/extradoc.yaml") :=
  .found rfl

/-- The sample file holds the printed settings. -/
theorem contents (settings : Settings) :
    (tree settings).contents (utf8 "/extradoc.yaml") = .ok (utf8Chars settings.yaml) :=
  rfl

/-- Texts of every style, many of which look like something else. -/
def awkward : Settings := .ofFunction fun key => utf8 <| match key with
  | .command => " emacs\n   -q\n\n"
  | .setupEval => "\n\n(setq tab-width 4)"
  | .exportEval => "no"
  | .projectIdVersion => "0x1F"
  | .reportMsgidBugsTo => "key: value # comment"
  | .potCreationDate => "2007-10-18"
  | .poRevisionDate => "- item"
  | .lastTranslator => "it's 'quoted'"
  | .languageTeam => " edges "
  | .mimeVersion => "bell\x07 and \\ and \ufeff"
  | .contentType => "one\n\ttwo"
  | .contentTransferEncoding => "null"

/-- Settings that are empty but for the command. -/
def commanded (command : String) : Settings :=
  .ofFunction fun key => if key = .command then utf8 command else []

end Sample

open Sample in
/-- Texts of every style are read back together. -/
theorem load_yaml_iff_awkward :
    ∃ fields, load (tree awkward) [] [] = .ok (utf8 "/extradoc.yaml", fields) ∧
      Config.settings [] fields = awkward := by
  have htext : ∀ key, Utf8.IsText (awkward.get key) := Key.forall_of_all (by decide +kernel)
  have hvalues : ∀ key, ¬Refused (awkward.chars key) := Key.forall_of_all (by decide +kernel)
  exact (load_yaml_iff htext (fun _ _ => rfl) (inUse awkward) (contents awkward)).1.mpr hvalues

open Sample in
/-- A tab at the start of a command of several lines spoils the whole file. -/
theorem load_yaml_tab : load (tree (commanded "\tx\ny")) [] [] = .error .malformed := by
  have htext : ∀ key, Utf8.IsText ((commanded "\tx\ny").get key) :=
    Key.forall_of_all (by decide +kernel)
  have hrefused : Refused ((commanded "\tx\ny").chars .command) := by decide +kernel
  exact load_yaml_refused htext hrefused (inUse _) (contents _)

end Config

end DocHarvest
