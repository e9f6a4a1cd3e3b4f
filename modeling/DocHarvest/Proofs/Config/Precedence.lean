import DocHarvest.Config.File

/-!
# Where a Setting Comes From

A setting has three sources: its variable in the environment, the configuration file, and the
default. The first that speaks decides. A file speaks under the setting's dotted name, and else in
the table of its section; a value that is null says nothing, and the case of letters in names does
not matter.

Each setting has sources of its own. Two environments that differ in one variable, or two files that
differ in one place, give settings that differ in one setting at most.

## Main definitions

* `Fields.under`, `Fields.Counts` — the fields that a table has under a name, and the one of them
  that counts.
* `Config.Says` — what a file says about a setting.
* `Config.Tabular` — whatever stands in the place of a section is a table.
* `Config.Place`, `Config.ChangedAt` — a place in a file, and files that differ there only.

## Main results

* `Config.fieldNamed?_eq_some_iff` — the search for a name finds the field that counts.
* `Config.fieldOf?_eq_some_iff` — the search for a setting finds what the file says.
* `Config.setting_eq_of_tabular` — the three sources in their order.
* `Config.setting_of_changedAt` — a change of the file at one place.
* `Config.settings_decided` — all of it.
-/

namespace DocHarvest

/-- What holds of all settings on the list holds of every setting. -/
theorem Key.forall_of_all {p : Key → Prop} (h : ∀ key ∈ Key.all, p key) (key : Key) : p key :=
  h key (by cases key <;> decide)

/-! ### Names -/

/-- The names of sections differ in their first byte already. -/
theorem Key.Section.eq_of_append {group group' : Key.Section} {rest rest' : Bytes}
    (h : utf8 group.name ++ rest = utf8 group'.name ++ rest') : group = group' := by
  have hlength : ∀ group : Key.Section, 1 ≤ (utf8 group.name).length := by
    intro group
    cases group <;> decide
  have hfirst := congrArg (List.take 1) h
  rw [List.take_append_of_le_length (hlength group),
    List.take_append_of_le_length (hlength group')] at hfirst
  cases group <;> cases group' <;> first | rfl | exact absurd hfirst (by decide)

/-- Sections have different names. -/
theorem Key.Section.eq_of_name {group group' : Key.Section}
    (h : utf8 group.name = utf8 group'.name) : group = group' :=
  Key.Section.eq_of_append (congrArg (· ++ []) h)

namespace Key

/-- In a section, every setting has a name of its own. -/
theorem eq_of_name {key key' : Key} (hgroup : key.group = key'.group)
    (hname : utf8 key.name = utf8 key'.name) : key = key' := by
  have hall : ∀ key ∈ all, ∀ key' ∈ all,
      key.group = key'.group → utf8 key.name = utf8 key'.name → key = key' := by
    decide +kernel
  exact forall_of_all (fun key hkey => forall_of_all (hall key hkey)) key key' hgroup hname

/-- Section and name, with something between them, tell settings apart. -/
theorem eq_of_append {key key' : Key} {between : Bytes}
    (h : utf8 key.group.name ++ (between ++ utf8 key.name) =
      utf8 key'.group.name ++ (between ++ utf8 key'.name)) : key = key' := by
  have hgroup := Key.Section.eq_of_append h
  rw [hgroup, List.append_cancel_left_eq, List.append_cancel_left_eq] at h
  exact eq_of_name hgroup h

/-- Every setting has a dotted name of its own. -/
theorem eq_of_dottedName {key key' : Key} (h : key.dottedName = key'.dottedName) : key = key' := by
  rw [dottedName, dottedName, List.append_assoc, List.append_assoc] at h
  exact eq_of_append h

/-- The variable of a setting in small letters. -/
theorem map_lower_variableName : ∀ key : Key, key.variableName.map Byte.lower =
    utf8 "extradoc_" ++ (utf8 key.group.name ++ (utf8 "_" ++ utf8 key.name)) :=
  forall_of_all (by decide +kernel)

/-- Every setting has a variable of its own. -/
theorem eq_of_variableName {key key' : Key} (h : key.variableName = key'.variableName) :
    key = key' := by
  have hlower := congrArg (List.map Byte.lower) h
  rw [map_lower_variableName, map_lower_variableName, List.append_cancel_left_eq] at hlower
  exact eq_of_append hlower

/-- No setting has the dotted name of a section. -/
theorem dottedName_ne (key : Key) (group : Key.Section) : key.dottedName ≠ utf8 group.name := by
  have hpoint : 46 ∈ key.dottedName := by simp [dottedName, show utf8 "." = [46] by decide]
  intro heq
  rw [heq] at hpoint
  cases group <;> exact absurd hpoint (by decide)

end Key

/-! ### What tables hold -/

namespace Fields

/-- The fields that a table has under a name, in their order. The case of letters does not
matter. -/
def under (fields : Fields) (name : Bytes) : Fields :=
  fields.filter fun field => lowered field.1.asText = name

/-- **The field that counts under a name**: the first that is spelled with capital letters, and the
first of all where none is. -/
inductive Counts (fields : Fields) (name : Bytes) (field : Value × Value) : Prop
  | capital {before after : Fields} : fields.under name = before ++ field :: after →
      field.1.asText ≠ name → (∀ other ∈ before, other.1.asText = name) →
      Counts fields name field
  | small {after : Fields} : fields.under name = field :: after →
      (∀ other ∈ fields.under name, other.1.asText = name) → Counts fields name field

/-- A table gives a value under a name when the field that counts has it, and it is not null. -/
def Gives (fields : Fields) (name : Bytes) (value : Value) : Prop :=
  (∃ key, fields.Counts name (key, value)) ∧ value ≠ .null

/-- Tables that hold the same but under one name. -/
def SameBut (name : Bytes) (fields fields' : Fields) : Prop :=
  ∀ other, other ≠ name → fields'.under other = fields.under other

/-- The values under a name are found in one part of the fields after the other. -/
theorem under_append (fields others : Fields) (name : Bytes) :
    under (fields ++ others) name = under fields name ++ under others name := by
  simp [under]

/-- Under another name, fields of one name hold nothing. -/
theorem under_eq_nil {fields : Fields} {name other : Bytes}
    (h : ∀ field ∈ fields, lowered field.1.asText = name) (hne : other ≠ name) :
    fields.under other = [] := by
  rw [under, List.filter_eq_nil_iff]
  intro field hfield
  rw [h field hfield, decide_eq_true_eq]
  exact Ne.symm hne

/-- **Fields of one name can be added, removed or replaced** without any effect on what a table
holds under other names. -/
theorem sameBut_of_replaced {name : Bytes} {old new : Fields}
    (hold : ∀ field ∈ old, lowered field.1.asText = name)
    (hnew : ∀ field ∈ new, lowered field.1.asText = name) (before after : Fields) :
    SameBut name (before ++ old ++ after) (before ++ new ++ after) := by
  intro other hne
  simp only [under_append, under_eq_nil hold hne, under_eq_nil hnew hne]

end Fields

namespace Config

/-- Anything but the null value is not null. -/
theorem isNull_eq_false_iff {value : Value} : value.isNull = false ↔ value ≠ .null := by
  cases value <;> simp [Value.isNull]

/-- A search looks only at the fields under the name. -/
theorem fieldNamed?_eq (fields : Fields) (name : Bytes) :
    fieldNamed? fields name =
      ((fields.under name).find? fun field => field.1.asText ≠ name).or (fields.under name).head? :=
  rfl

/-- A search finds the field that counts. -/
theorem fieldNamed?_eq_some_iff {fields : Fields} {name : Bytes} {field : Value × Value} :
    fieldNamed? fields name = some field ↔ fields.Counts name field := by
  rw [fieldNamed?_eq]
  cases hcapital : (fields.under name).find? fun field => field.1.asText ≠ name with
  | some found =>
    obtain ⟨hspelled, before, after, hunder, hbefore⟩ := List.find?_eq_some_iff_append.mp hcapital
    have hspelled : found.1.asText ≠ name := by simpa using hspelled
    have hbefore : ∀ other ∈ before, other.1.asText = name := by simpa using hbefore
    rw [Option.some_or, Option.some.injEq]
    constructor
    · rintro rfl
      exact .capital hunder hspelled hbefore
    · intro hcounts
      cases hcounts with
      | @capital before' after' hunder' hspelled' hbefore' =>
        have hfound : (fields.under name).find? (fun field => field.1.asText ≠ name) =
            some field :=
          List.find?_eq_some_iff_append.mpr
            ⟨by simpa using hspelled', before', after', hunder', by simpa using hbefore'⟩
        exact Option.some.inj (hcapital.symm.trans hfound)
      | small hunder' hsmall => exact absurd (hsmall found (by simp [hunder])) hspelled
  | none =>
    have hsmall : ∀ other ∈ fields.under name, other.1.asText = name := by
      simpa using List.find?_eq_none.mp hcapital
    rw [Option.none_or, List.head?_eq_some_iff]
    constructor
    · rintro ⟨after, hunder⟩
      exact .small hunder hsmall
    · intro hcounts
      cases hcounts with
      | capital hunder hspelled => exact absurd (hsmall field (by simp [hunder])) hspelled
      | small hunder => exact ⟨_, hunder⟩

/-- **A search for a name** finds the value that the table gives under it. -/
theorem field?_eq_some_iff {fields : Fields} {name : Bytes} {value : Value} :
    field? fields name = some value ↔ fields.Gives name value := by
  simp only [Fields.Gives, ← fieldNamed?_eq_some_iff, field?]
  cases fieldNamed? fields name with
  | none => simp
  | some field =>
    obtain ⟨key, found⟩ := field
    simp only [Option.some.injEq, Prod.mk.injEq, exists_eq_left']
    by_cases hnull : found = .null
    · subst hnull
      constructor
      · intro hfound
        cases hfound
      · rintro ⟨rfl, hne⟩
        exact absurd rfl hne
    · rw [isNull_eq_false_iff.mpr hnull]
      constructor
      · intro hfound
        obtain rfl := Option.some.inj hfound
        exact ⟨rfl, hnull⟩
      · rintro ⟨rfl, -⟩
        rfl

example : field? [(.text (utf8 "command"), .int 1), (.text (utf8 "Command"), .int 2)]
    (utf8 "command") = some (.int 2) :=
  rfl

/-- A field depends on the values under its name alone. -/
theorem field?_of_under {fields fields' : Fields} {name : Bytes}
    (h : fields'.under name = fields.under name) : field? fields' name = field? fields name := by
  rw [field?, field?, fieldNamed?_eq, fieldNamed?_eq, h]

/-! ### What files say -/

/-- **What a file says about a setting**: what it holds under the dotted name, or else what the
table of the section holds under the name. -/
inductive Says (fields : Fields) (key : Key) : Value → Prop
  | dotted {value : Value} : fields.Gives key.dottedName value → Says fields key value
  | inSection {inner : Fields} {value : Value} :
      (∀ other, ¬fields.Gives key.dottedName other) →
      fields.Gives (utf8 key.group.name) (.table inner) → inner.Gives (utf8 key.name) value →
      Says fields key value

/-- The table of a section; it is empty when there is none. -/
def table (fields : Fields) (group : Key.Section) : Fields :=
  match field? fields (utf8 group.name) with
  | some (.table inner) => inner
  | _ => []

/-- The search for a setting looks for the dotted name first, and then in the table of the section.
-/
theorem fieldOf?_eq (fields : Fields) (key : Key) :
    fieldOf? fields key =
      (field? fields key.dottedName).or (field? (table fields key.group) (utf8 key.name)) := by
  unfold fieldOf? table
  cases field? fields key.dottedName with
  | some value => rfl
  | none =>
    cases field? fields (utf8 key.group.name) with
    | none => rfl
    | some value => cases value <;> rfl

/-- **The search for a setting** finds what the file says about it. -/
theorem fieldOf?_eq_some_iff {fields : Fields} {key : Key} {value : Value} :
    fieldOf? fields key = some value ↔ Says fields key value := by
  rw [fieldOf?_eq]
  constructor
  · intro h
    cases hdotted : field? fields key.dottedName with
    | some found =>
      rw [hdotted, Option.some_or, Option.some.injEq] at h
      exact .dotted (field?_eq_some_iff.mp (h ▸ hdotted))
    | none =>
      rw [hdotted, Option.none_or] at h
      have hother : ∀ other, ¬fields.Gives key.dottedName other := by
        intro other hgives
        rw [field?_eq_some_iff.mpr hgives] at hdotted
        cases hdotted
      unfold table at h
      split at h
      · next inner hgroup =>
        exact .inSection hother (field?_eq_some_iff.mp hgroup) (field?_eq_some_iff.mp h)
      · cases h
  · intro h
    cases h with
    | dotted hgives => rw [field?_eq_some_iff.mpr hgives, Option.some_or]
    | inSection hother hgroup hgives =>
      have hdotted : field? fields key.dottedName = none := by
        rw [Option.eq_none_iff_forall_not_mem]
        exact fun other hmem => hother other (field?_eq_some_iff.mp hmem)
      rw [hdotted, Option.none_or, table, field?_eq_some_iff.mpr hgroup]
      exact field?_eq_some_iff.mpr hgives

/-- Whatever a file gives in the place of a section is a table. -/
def Tabular (fields : Fields) : Prop :=
  ∀ (group : Key.Section) value, fields.Gives (utf8 group.name) value →
    ∃ inner, value = .table inner

/-- A file with tables for sections hides no defaults. -/
theorem Tabular.hidesSection_eq {fields : Fields} (h : Tabular fields) (group : Key.Section) :
    hidesSection fields group = false := by
  unfold hidesSection
  cases hgroup : field? fields (utf8 group.name) with
  | none => rfl
  | some value =>
    obtain ⟨inner, rfl⟩ := h group value (field?_eq_some_iff.mp hgroup)
    rfl

/-! ### The three sources -/

/-- The value that decides a setting: the variable, the file, or the default. -/
theorem setting_eq_of_tabular {env : Environment} {fields : Fields} {key : Key}
    (henv : env.get key.group.variableName = []) (h : Tabular fields) :
    setting env fields key =
      if env.get key.variableName ≠ [] then env.get key.variableName
      else ((fieldOf? fields key).map Value.asText).getD key.default := by
  unfold setting
  cases env.get key.variableName with
  | cons b value => rfl
  | nil =>
    rw [henv, h.hidesSection_eq]
    cases fieldOf? fields key <;> rfl

/-- Only two variables have an effect on a setting. -/
theorem setting_of_env {env env' : Environment} {key : Key}
    (hown : env'.get key.variableName = env.get key.variableName)
    (hgroup : env'.get key.group.variableName = env.get key.group.variableName)
    (fields : Fields) : setting env' fields key = setting env fields key := by
  simp only [setting, hown, hgroup]

/-- Only one variable has an effect on the file that is read. -/
theorem load_of_env {env env' : Environment}
    (h : env'.get (utf8 "HOME") = env.get (utf8 "HOME")) (tree : Files.Tree) (named : Bytes) :
    load tree env' named = load tree env named := by
  have hcandidates : candidates tree env' = candidates tree env := by
    simp only [candidates, directories, h]
  simp only [load, find, hcandidates]

/-! ### Files that differ in one place -/

/-- A place in a file: a field of the file itself, or a field in the table of a section. -/
inductive Place
  | top (name : Bytes)
  | inside (group : Key.Section) (name : Bytes)
  deriving DecidableEq, Repr

/-- The setting that is spoken of at a place. -/
def Place.SpeaksOf (key : Key) : Place → Prop
  | top name => name = key.dottedName
  | inside group name => group = key.group ∧ name = utf8 key.name

/-- Every place speaks of one setting at most. -/
theorem Place.SpeaksOf.unique {place : Place} {key key' : Key} (h : place.SpeaksOf key)
    (h' : place.SpeaksOf key') : key = key' := by
  cases place with
  | top name => exact Key.eq_of_dottedName (h.symm.trans h')
  | inside group name => exact Key.eq_of_name (h.1.symm.trans h'.1) (h.2.symm.trans h'.2)

/-- Files that differ in one place only. A place inside a section is reached through the section's
table, which may be there in both files or in one of them. -/
inductive ChangedAt (fields fields' : Fields) : Place → Prop
  | top {name : Bytes} : (∀ group : Key.Section, name ≠ utf8 group.name) →
      Fields.SameBut name fields fields' → ChangedAt fields fields' (.top name)
  | inside {group : Key.Section} {name : Bytes} :
      Fields.SameBut (utf8 group.name) fields fields' →
      Fields.SameBut name (table fields group) (table fields' group) →
      ChangedAt fields fields' (.inside group name)

/-- A section depends on the values under its name alone. -/
theorem table_of_under {fields fields' : Fields} {group : Key.Section}
    (h : fields'.under (utf8 group.name) = fields.under (utf8 group.name)) :
    table fields' group = table fields group := by
  rw [table, table, field?_of_under h]

/-- A change at one place is not seen by settings that the place does not speak of. -/
theorem fieldOf?_of_changedAt {fields fields' : Fields} {place : Place} {key : Key}
    (h : ChangedAt fields fields' place) (hother : ¬place.SpeaksOf key) :
    fieldOf? fields' key = fieldOf? fields key := by
  rw [fieldOf?_eq, fieldOf?_eq]
  cases h with
  | top hname hsame =>
    rw [field?_of_under (hsame _ (Ne.symm hother)), table_of_under (hsame _ (Ne.symm (hname _)))]
  | @inside group name hsame hinner =>
    rw [field?_of_under (hsame _ (key.dottedName_ne group))]
    by_cases hgroup : key.group = group
    · subst hgroup
      have hname : utf8 key.name ≠ name := fun heq => hother ⟨rfl, heq.symm⟩
      rw [field?_of_under (hinner _ hname)]
    · have hne : utf8 key.group.name ≠ utf8 group.name :=
        fun heq => hgroup (Key.Section.eq_of_name heq)
      rw [table_of_under (hsame _ hne)]

/-- **A change of the file at one place** leaves all settings alone that the place does not speak
of. -/
theorem setting_of_changedAt {env : Environment} {fields fields' : Fields} {place : Place}
    {key : Key} (henv : env.get key.group.variableName = []) (htables : Tabular fields)
    (htables' : Tabular fields') (h : ChangedAt fields fields' place)
    (hother : ¬place.SpeaksOf key) : setting env fields' key = setting env fields key := by
  rw [setting_eq_of_tabular henv htables, setting_eq_of_tabular henv htables',
    fieldOf?_of_changedAt h hother]

/-- **Where settings come from**, for every environment without variables for whole sections, and
for every file that could be loaded and has nothing but tables for its sections, or that could not
be loaded at all. A setting is the value of its variable unless that is empty, else what the file
says about it, as text, else the default. A file that could not be loaded says nothing.

A variable with another value changes at most the setting whose variable it is, and it does not
change which file is read, unless it is the one for the home directory. A file changed in one place
changes at most the setting that the place speaks of. -/
theorem settings_decided (env : Environment) (loaded : Except ConfigError (Bytes × Fields))
    (henv : ∀ group : Key.Section, env.get group.variableName = [])
    (htables : Tabular (fieldsOf loaded)) :
    (∀ key : Key,
      (env.get key.variableName ≠ [] →
        (settings env (fieldsOf loaded)).get key = env.get key.variableName) ∧
      (env.get key.variableName = [] → ∀ value, Says (fieldsOf loaded) key value →
        (settings env (fieldsOf loaded)).get key = value.asText) ∧
      (env.get key.variableName = [] → (∀ value, ¬Says (fieldsOf loaded) key value) →
        (settings env (fieldsOf loaded)).get key = key.default)) ∧
    (∀ error, loaded = .error error → ∀ key value, ¬Says (fieldsOf loaded) key value) ∧
    (∀ (env' : Environment) (name : Bytes),
      (∀ other, other ≠ name → env'.get other = env.get other) →
      (∀ group : Key.Section, env'.get group.variableName = []) →
      (∀ key, (settings env' (fieldsOf loaded)).get key ≠ (settings env (fieldsOf loaded)).get key →
        name = key.variableName) ∧
      (name ≠ utf8 "HOME" → ∀ tree named, load tree env' named = load tree env named)) ∧
    (∀ fields' place, Tabular fields' → ChangedAt (fieldsOf loaded) fields' place →
      ∀ key, (settings env fields').get key ≠ (settings env (fieldsOf loaded)).get key →
        place.SpeaksOf key) ∧
    (∀ key key' : Key, key.variableName = key'.variableName → key = key') ∧
    (∀ (place : Place) key key', place.SpeaksOf key → place.SpeaksOf key' → key = key') := by
  simp only [settings, Settings.get_ofFunction]
  refine ⟨fun key => ?_, ?_, ?_, ?_, fun _ _ => Key.eq_of_variableName,
    fun _ _ _ => Place.SpeaksOf.unique⟩
  · rw [setting_eq_of_tabular (henv key.group) htables]
    refine ⟨fun hown => if_pos hown, fun hown value hsays => ?_, fun hown hnone => ?_⟩
    · rw [if_neg (not_not_intro hown), fieldOf?_eq_some_iff.mpr hsays]
      rfl
    · have hfield : fieldOf? (fieldsOf loaded) key = none := by
        rw [Option.eq_none_iff_forall_not_mem]
        exact fun value hmem => hnone value (fieldOf?_eq_some_iff.mp hmem)
      rw [if_neg (not_not_intro hown), hfield]
      rfl
  · rintro error rfl key value hsays
    have hfield : fieldOf? [] key = some value := fieldOf?_eq_some_iff.mpr hsays
    cases hfield
  · intro env' name hsame henv'
    refine ⟨fun key hchanged => ?_, fun hhome tree named => ?_⟩
    · apply Decidable.byContradiction
      intro hne
      apply hchanged
      apply setting_of_env
      · exact hsame _ (Ne.symm hne)
      · rw [henv, henv']
    · exact load_of_env (hsame _ (Ne.symm hhome)) tree named
  · intro fields' place htables' hplace key hchanged
    apply Classical.byContradiction
    intro hother
    exact hchanged (setting_of_changedAt (henv key.group) htables htables' hplace hother)

namespace Sample

/-- The table of a section, with a value for the command. -/
def formatterFields (command : Value) : Fields :=
  [(.text (utf8 "Command"), command), (.text (utf8 "setup_eval"), .text (utf8 "unheard")),
    (.text (utf8 "EXPORT_eval"), .null)]

/-- Fields beside the section: some of them say nothing, and one speaks before the section. -/
def otherFields : Fields :=
  [(.text (utf8 "formatter.Setup_Eval"), .bool true), (.text (utf8 "formatter.command"), .null),
    (.text (utf8 "catalog"), .null), (.text (utf8 "Catalog.mime_version"), .int 2)]

/-- A file that names things in every way, with a value for the command. -/
def file (command : Value) : Fields :=
  [(.text (utf8 "FORMATTER"), .table (formatterFields command))] ++ otherFields

/-- An environment that speaks for one setting. -/
def environment : Environment :=
  [(utf8 "EXTRADOC_FORMATTER", []), (utf8 "EXTRADOC_CATALOG_MIME_VERSION", utf8 "9")]

/-- The sample file has a section for the formatter. -/
theorem field?_formatter (command : Value) :
    field? (file command) (utf8 Key.Section.formatter.name) =
      some (.table (formatterFields command)) :=
  rfl

/-- The sections of the sample file are tables. -/
theorem tabular_file (command : Value) : Tabular (file command) := by
  intro group value hgives
  have hfield := field?_eq_some_iff.mpr hgives
  cases group with
  | formatter => exact ⟨_, (Option.some.inj ((field?_formatter command).symm.trans hfield)).symm⟩
  | catalog => cases hfield

/-- Another value for the command is a change in one place. -/
theorem changedAt_file (command command' : Value) :
    ChangedAt (file command) (file command') (.inside .formatter (utf8 "command")) := by
  have hsection : ∀ command : Value,
      ∀ field ∈ [(Value.text (utf8 "FORMATTER"), Value.table (formatterFields command))],
        lowered field.1.asText = utf8 Key.Section.formatter.name := by
    intro command field hfield
    rw [List.mem_singleton.mp hfield]
    show lowered (utf8 "FORMATTER") = utf8 "formatter"
    decide
  have hcommand : ∀ command : Value, ∀ field ∈ [(Value.text (utf8 "Command"), command)],
      lowered field.1.asText = utf8 "command" := by
    intro command field hfield
    rw [List.mem_singleton.mp hfield]
    show lowered (utf8 "Command") = utf8 "command"
    decide
  constructor
  · exact Fields.sameBut_of_replaced (hsection command) (hsection command') [] otherFields
  · rw [table, table, field?_formatter, field?_formatter]
    exact Fields.sameBut_of_replaced (hcommand command) (hcommand command') []
      [(.text (utf8 "setup_eval"), .text (utf8 "unheard")), (.text (utf8 "EXPORT_eval"), .null)]

end Sample

open Sample in
/-- A number, a flag and a variable as settings, and a change of one field. -/
theorem settings_decided_sample :
    ((settings environment (file (.int 7))).get .command = utf8 "7" ∧
      (settings environment (file (.int 7))).get .setupEval = utf8 "true" ∧
      (settings environment (file (.int 7))).get .exportEval = Key.exportEval.default ∧
      (settings environment (file (.int 7))).get .mimeVersion = utf8 "9") ∧
    ∀ key, (settings environment (file (.text (utf8 "x")))).get key ≠
      (settings environment (file (.int 7))).get key → key = .command := by
  have henv : ∀ group : Key.Section, environment.get group.variableName = [] := by
    intro group
    cases group <;> decide
  obtain ⟨hsources, -, -, hplaces, -, hunique⟩ :=
    settings_decided environment (.ok (utf8 "/extradoc.yaml", file (.int 7))) henv
      (tabular_file (.int 7))
  refine ⟨⟨?_, ?_, ?_, ?_⟩, ?_⟩
  · exact (hsources .command).2.1 (by decide) (.int 7) (fieldOf?_eq_some_iff.mp rfl)
  · exact (hsources .setupEval).2.1 (by decide) (.bool true) (fieldOf?_eq_some_iff.mp rfl)
  · refine (hsources .exportEval).2.2 (by decide) fun value hsays => ?_
    cases fieldOf?_eq_some_iff.mpr hsays
  · exact (hsources .mimeVersion).1 (by decide)
  · intro key hchanged
    have hspeaks := hplaces _ _ (tabular_file _) (changedAt_file _ _) key hchanged
    exact hunique _ key .command hspeaks ⟨rfl, rfl⟩

end Config

end DocHarvest
