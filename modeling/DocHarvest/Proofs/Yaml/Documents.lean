import DocHarvest.Proofs.Bytes.Encoding
import DocHarvest.Proofs.Yaml.Sections
import DocHarvest.Yaml.Document

/-!
# The Fields of Written Settings

The tokens of a document of sections are put together to a mapping of mappings, and its value is a
table of tables. The names of sections and entries are taken as texts, and so are the values: one
that stands without quotes looks like nothing else.

## Main definitions

* `Yaml.Entry.node`, `Yaml.Section.node` — what entries and sections are in the tree.
* `Yaml.Field` — a field of a mapping, with the value that its node has.

## Main results

* `Yaml.readFields_entries`, `Yaml.readFields_sections` — tokens become nodes.
* `Yaml.document?_sections` — the node of a document of sections.
* `Yaml.ownFields?_nodes` — the fields of a mapping whose names are different texts.
* `Yaml.documentFields?_sections` — the fields of a document of sections.
-/

namespace DocHarvest.Yaml

/-! ### Nodes -/

/-- An entry as a field of a mapping. -/
def Entry.node (entry : Entry) : Node × Node :=
  (.scalar .unsaid entry.name true,
    .scalar .unsaid entry.value (style entry.value = .plain))

/-- A section as a field of a mapping. -/
def Section.node (part : Section) : Node × Node :=
  (.scalar .unsaid part.name true, .mapping (part.entries.map Entry.node))

variable {handles : List (Bytes × Bytes)}

/-- Nodes are read from tokens without any anchor. -/
def reading (handles : List (Bytes × Bytes)) (tokens : List Token) (number : Nat) : Reading :=
  { tokens, number, handles }

/-- A scalar without properties. -/
theorem readNode_scalar (block indentless : Bool) (fuel number : Nat) (text : List Char)
    (plain : Bool) (rest : List Token) :
    readNode block indentless (fuel + 1) (reading handles (.scalar text plain :: rest) number) =
      some (.scalar .unsaid text plain, reading handles rest (number + 1)) := by
  cases block <;> cases indentless <;> rfl

/-- A block mapping without properties. -/
theorem readNode_mapping (indentless : Bool) (fuel number : Nat) (rest : List Token) :
    readNode true indentless (fuel + 1) (reading handles (.mappingStart :: rest) number) =
      (readFields fuel (reading handles rest (number + 1))).map
        fun (entries, r) => (.mapping entries, r.settle number (.mapping entries)) := by
  cases indentless <;> simp [readNode, readProperties, reading, Reading.announce, Function.comp_def]

/-- A field of a block mapping: its key, its value, and the fields behind it. -/
theorem readFields_key {token : Token} (htoken : endsBlockField token = false) (fuel number : Nat)
    (name : List Char) (rest : List Token) :
    readFields (fuel + 2)
        (reading handles (.key :: .scalar name true :: .value :: token :: rest) number) =
      (readNode true true (fuel + 1) (reading handles (token :: rest) (number + 1))).bind
        fun (value, next) => (readFields (fuel + 1) next).map
          fun (entries, r) => ((.scalar .unsaid name true, value) :: entries, r) := by
  have hkey : readNode true true (fuel + 1)
      (reading handles (.scalar name true :: .value :: token :: rest) number) = _ :=
    readNode_scalar true true fuel number name true (.value :: token :: rest)
  have hscalar : endsBlockField (.scalar name true) = false := rfl
  rw [readFields]
  simp only [reading] at hkey ⊢
  simp only [hscalar, hkey, htoken, Bool.false_eq_true, if_false]
  cases readNode true true (fuel + 1) { tokens := token :: rest, number := number + 1, handles } <;>
    rfl

variable (handles) in
/-- **The entries of a section** are read as fields, in front of those that follow. -/
theorem readFields_entries (entries : List Entry) (fuel number : Nat) (rest : List Token) :
    ∃ number', readFields (entries.length + (fuel + 1))
        (reading handles (entries.flatMap Entry.tokens ++ rest) number) =
      (readFields (fuel + 1) (reading handles rest number')).map
        fun (fields, r) => (entries.map Entry.node ++ fields, r) := by
  induction entries generalizing number with
  | nil =>
    refine ⟨number, ?_⟩
    rw [List.length_nil, Nat.zero_add]
    simp
  | cons entry entries ih =>
    obtain ⟨number', hrest⟩ := ih (number + 2)
    refine ⟨number', ?_⟩
    rw [List.length_cons, show entries.length + 1 + (fuel + 1) = entries.length + fuel + 2 by omega,
      List.flatMap_cons, List.append_assoc]
    refine (readFields_key rfl (entries.length + fuel) number entry.name
      (entries.flatMap Entry.tokens ++ rest)).trans ?_
    rw [readNode_scalar, Option.bind_some]
    simp only [Nat.add_assoc, Nat.reduceAdd, hrest, Option.map_map]
    rfl

/-- The fields of a section behind its name, up to where its mapping is closed. -/
theorem readNode_entries (entries : List Entry) {fuel : Nat} (hfuel : entries.length + 2 ≤ fuel)
    (number : Nat) (rest : List Token) :
    ∃ number', readNode true true fuel
        (reading handles (.mappingStart :: (entries.flatMap Entry.tokens ++ .blockEnd :: rest))
          number) =
      some (.mapping (entries.map Entry.node), reading handles rest number') := by
  obtain ⟨fuel, rfl⟩ := Nat.exists_eq_add_of_le hfuel
  obtain ⟨number', hentries⟩ := readFields_entries handles entries fuel (number + 1)
    (.blockEnd :: rest)
  refine ⟨number', ?_⟩
  rw [show entries.length + 2 + fuel = entries.length + (fuel + 1) + 1 by omega, readNode_mapping,
    hentries]
  simp [readFields, reading, Reading.settle]

variable (handles) in
/-- **Sections** are read as fields, in front of those that follow. -/
theorem readFields_sections {parts : List Section} {fuel : Nat}
    (hfuel : ∀ part ∈ parts, part.entries.length + 2 ≤ fuel) (number : Nat) (rest : List Token) :
    ∃ number', readFields (parts.length + fuel)
        (reading handles (parts.flatMap Section.tokens ++ rest) number) =
      (readFields fuel (reading handles rest number')).map
        fun (fields, r) => (parts.map Section.node ++ fields, r) := by
  induction parts generalizing number with
  | nil =>
    refine ⟨number, ?_⟩
    rw [List.length_nil, Nat.zero_add]
    simp
  | cons part parts ih =>
    obtain ⟨hpart, hparts⟩ := List.forall_mem_cons.mp hfuel
    obtain ⟨number₁, hentries⟩ := readNode_entries part.entries
      (show part.entries.length + 2 ≤ parts.length + fuel by omega) (number + 1)
      (parts.flatMap Section.tokens ++ rest)
    obtain ⟨number₂, hrest⟩ := ih hparts number₁
    refine ⟨number₂, ?_⟩
    obtain ⟨more, hmore⟩ : ∃ n, parts.length + fuel = n + 1 := ⟨parts.length + fuel - 1, by omega⟩
    have htokens : (part :: parts).flatMap Section.tokens ++ rest =
        .key :: .scalar part.name true :: .value :: .mappingStart ::
          (part.entries.flatMap Entry.tokens ++
            .blockEnd :: (parts.flatMap Section.tokens ++ rest)) := by
      simp [Section.tokens, openSection]
    rw [htokens, List.length_cons, show parts.length + 1 + fuel = more + 2 by omega,
      readFields_key rfl, ← hmore, hentries, Option.bind_some]
    simp only [hrest, Option.map_map]
    rfl

/-! ### Documents -/

/-- The first tokens of a document lead to the fields of its mapping. -/
theorem document?_mapping (rest : List Token) :
    document? (.streamStart :: .mappingStart :: rest) =
      (readFields (3 * rest.length + 8) (reading standardHandles rest 1)).bind
        fun (entries, r) => if r.tokens.isEmpty then none else some (some (.mapping entries)) := by
  have hnode : readNode true false (3 * rest.length + 8 + 1)
      (reading standardHandles (.mappingStart :: rest) 0) = _ :=
    readNode_mapping false (3 * rest.length + 8) 0 rest
  simp only [document?, List.length_cons, show 3 * (rest.length + 1 + 1) + 3 =
    3 * rest.length + 8 + 1 by omega]
  simp only [reading] at hnode ⊢
  rw [hnode]
  cases readFields (3 * rest.length + 8) { tokens := rest, number := 1, handles := standardHandles }
  · rfl
  · rfl

/-- Every entry has a token. -/
theorem Entry.length_le_tokens (entries : List Entry) :
    entries.length ≤ (entries.flatMap Entry.tokens).length := by
  induction entries with
  | nil => exact Nat.le_refl _
  | cons entry entries ih =>
    rw [List.flatMap_cons, List.length_append, List.length_cons]
    simp only [Entry.tokens, List.length_cons]
    omega

/-- There are no more sections than tokens, and no more entries in any of them. -/
theorem Section.lengths_le (parts : List Section) :
    parts.length ≤ (parts.flatMap Section.tokens).length ∧
      ∀ part ∈ parts, part.entries.length ≤ (parts.flatMap Section.tokens).length := by
  induction parts with
  | nil => simp
  | cons part parts ih =>
    have hpart := Entry.length_le_tokens part.entries
    have htokens : part.entries.length + 1 ≤ part.tokens.length := by
      simp only [Section.tokens, List.length_append, List.length_singleton]
      omega
    rw [List.flatMap_cons, List.length_append, List.length_cons, List.forall_mem_cons]
    exact ⟨by omega, by omega, fun p hp => by have := ih.2 p hp; omega⟩

/-- Behind its sections, a document goes on with other fields. -/
theorem document?_append (parts : List Section) (rest : List Token) :
    ∃ fuel number, rest.length < fuel ∧
      document? ([.streamStart, .mappingStart] ++ parts.flatMap Section.tokens ++ rest) =
        (readFields fuel (reading standardHandles rest number)).bind fun (entries, r) =>
          if r.tokens.isEmpty then none
          else some (some (.mapping (parts.map Section.node ++ entries))) := by
  obtain ⟨hlength, hentries⟩ := Section.lengths_le parts
  obtain ⟨fuel, hfuel⟩ : ∃ fuel, 3 * (parts.flatMap Section.tokens ++ rest).length + 8 =
      parts.length + fuel :=
    Nat.exists_eq_add_of_le (by rw [List.length_append]; omega)
  rw [List.length_append] at hfuel
  have hfits : ∀ part ∈ parts, part.entries.length + 2 ≤ fuel := by
    intro part hpart
    have := hentries part hpart
    omega
  obtain ⟨number, hread⟩ := readFields_sections standardHandles hfits 1 rest
  refine ⟨fuel, number, by omega, ?_⟩
  rw [List.append_assoc]
  refine (document?_mapping (parts.flatMap Section.tokens ++ rest)).trans ?_
  rw [List.length_append, hfuel, hread]
  cases readFields fuel (reading standardHandles rest number) <;> rfl

/-- **The node of a document of sections.** -/
theorem document?_sections (parts : List Section) :
    document? ([.streamStart, .mappingStart] ++ parts.flatMap Section.tokens ++
        [.blockEnd, .streamEnd]) =
      some (some (.mapping (parts.map Section.node))) := by
  obtain ⟨fuel, number, hfuel, hread⟩ := document?_append parts [.blockEnd, .streamEnd]
  obtain ⟨fuel, rfl⟩ := Nat.exists_eq_add_one_of_ne_zero (Nat.ne_zero_of_lt hfuel)
  rw [hread, readFields]
  simp [reading]

/-! ### Plain texts -/

/-- What a word is resolved to is no text. -/
theorem isText_of_word? {s : List Char} {value : Value} (h : word? s = some value) :
    isText value = false := by
  obtain ⟨word, hword, rfl⟩ := Option.map_eq_some_iff.mp h
  exact (by decide : ∀ word ∈ words, isText word.2 = false) word (List.mem_of_find?_eq_some hword)

/-- What a numeral is resolved to is no text. -/
theorem isText_of_numeric? {s : List Char} {value : Value} (h : numeric? s = some value) :
    isText value = false := by
  have hnumber : ∀ t, number? t = some value → isText value = false := by
    intro t ht
    simp only [number?, Option.orElse_eq_orElse, Option.orElse_eq_or, Option.or_eq_some_iff,
      Option.map_eq_some_iff] at ht
    obtain ⟨n, -, rfl⟩ | ⟨-, ⟨x, -, rfl⟩ | ⟨-, n, -, rfl⟩⟩ := ht <;> rfl
  unfold numeric? at h
  split at h
  · cases h
  · split at h
    · exact hnumber _ h
    · split at h
      · unfold fraction? at h
        split at h
        · obtain ⟨x, -, rfl⟩ := Option.map_eq_some_iff.mp h
          rfl
        · cases h
      · cases h

/-- A plain scalar that is a text stands for itself. -/
theorem resolvePlain_of_isText {s : List Char} (h : isText (resolvePlain s) = true) :
    resolvePlain s = .text (utf8Chars s) := by
  unfold resolvePlain at h ⊢
  cases hword : word? s with
  | some value => simp [hword, isText_of_word? hword] at h
  | none =>
    cases htime : Timestamp.parse? s with
    | some time => simp [hword, htime, isText] at h
    | none =>
      cases hnumeric : numeric? s with
      | some value => simp [hword, htime, hnumeric, isText_of_numeric? hnumeric] at h
      | none => rfl

/-! ### The fields of mappings -/

/-- Outside aliases no effort is excessive. -/
theorem Effort.step?_own {e : Effort} (h : e.aliased = 0) :
    ∃ e' : Effort, e'.aliased = 0 ∧ e.step? false = some e' := by
  refine ⟨{ e with steps := e.steps + 1 }, h, ?_⟩
  simp [Effort.step?, Effort.isExcessive, h]

/-- Whether a node has a value, outside aliases. -/
def Evaluates (node : Node) (value : Value) : Prop :=
  ∀ e : Effort, e.aliased = 0 →
    ∃ e' : Effort, e'.aliased = 0 ∧ node.value? false e = some (value, e')

/-- A field of a mapping under a name, with the value of its node. -/
structure Field where
  name : List Char
  node : Node
  value : Value

/-- Whether the name of a field is taken as a text, and its node has its value. -/
structure Field.Sound (field : Field) : Prop where
  text : isText (resolvePlain field.name) = true
  own : field.name ≠ ['<', '<']
  value : Evaluates field.node field.value

/-- Fields as the nodes of a mapping. -/
def nodes (fields : List Field) : List (Node × Node) :=
  fields.map fun field => (.scalar .unsaid field.name true, field.node)

/-- Fields as a table. -/
def table (fields : List Field) : Fields :=
  fields.map fun field => (.text (utf8Chars field.name), field.value)

/-- A name other than the merge mark merges nothing. -/
theorem isMerge_key {name : List Char} (h : name ≠ ['<', '<']) :
    (Node.scalar .unsaid name true).isMerge = false := by
  simp [Node.isMerge, h]

/-- The name of a field as a key. -/
theorem Field.Sound.key? {field : Field} (h : field.Sound) (texts : Bool) {e : Effort}
    (he : e.aliased = 0) : ∃ e' : Effort, e'.aliased = 0 ∧
      (Node.scalar .unsaid field.name true).key? texts false e =
        some (some (.text (utf8Chars field.name)), e') := by
  obtain ⟨e', he', hstep⟩ := Effort.step?_own he
  refine ⟨e', he', ?_⟩
  simp [Node.key?, hstep, scalarKey?, scalarValue?, resolvePlain_of_isText h.text]

/-- A field with a new name is added at the end. -/
theorem Fields.set_of_new {fields : Fields} {key : Value} (h : fields.has key = false)
    (value : Value) : fields.set key value = fields ++ [(key, value)] := by
  simp [Fields.set, h]

/-- **The fields of a mapping** with different names, behind those that are there. -/
theorem ownFields?_nodes (texts : Bool) {fields : List Field} (hsound : ∀ f ∈ fields, f.Sound)
    (hnames : (fields.map Field.name).Nodup) {others : Fields}
    (hothers : ∀ f ∈ fields, others.has (.text (utf8Chars f.name)) = false) {e : Effort}
    (he : e.aliased = 0) : ∃ e' : Effort, e'.aliased = 0 ∧
      ownFields? texts false false (nodes fields) others e = some (others ++ table fields, e') := by
  induction fields generalizing others e with
  | nil => exact ⟨e, he, by simp [nodes, table, ownFields?]⟩
  | cons field fields ih =>
    obtain ⟨hfield, hsound⟩ := List.forall_mem_cons.mp hsound
    obtain ⟨hnew, hothers⟩ := List.forall_mem_cons.mp hothers
    rw [List.map_cons, List.nodup_cons] at hnames
    obtain ⟨e₁, he₁, hkey⟩ := hfield.key? texts he
    obtain ⟨e₂, he₂, hvalue⟩ := hfield.value e₁ he₁
    have hothers' : ∀ f ∈ fields,
        (others ++ [(Value.text (utf8Chars field.name), field.value)] : Fields).has
          (.text (utf8Chars f.name)) = false := by
      intro f hf
      have hne : field.name ≠ f.name := by
        intro hname
        exact hnames.1 (hname ▸ List.mem_map_of_mem hf)
      have hbytes : utf8Chars field.name ≠ utf8Chars f.name :=
        fun h => hne (Utf8.utf8Chars_injective h)
      have hother := hothers f hf
      simp only [Fields.has, List.any_append, Bool.or_eq_false_iff] at hother ⊢
      exact ⟨hother, by simp [Value.asText, hbytes]⟩
    obtain ⟨e₃, he₃, hrest⟩ := ih hsound hnames.2 hothers' he₂
    refine ⟨e₃, he₃, ?_⟩
    have hcons : nodes (field :: fields) =
        (.scalar .unsaid field.name true, field.node) :: nodes fields := rfl
    rw [hcons, ownFields?, isMerge_key hfield.own]
    simp only [Bool.false_eq_true, if_false, hkey, Bool.false_and, hvalue,
      Fields.set_of_new hnew, hrest]
    simp [table]

/-- Sound fields merge nothing. -/
theorem mergedFields?_nodes (texts : Bool) {fields : List Field} (hsound : ∀ f ∈ fields, f.Sound)
    (others : Fields) (e : Effort) :
    mergedFields? texts false (nodes fields) others e = some (others, e) := by
  induction fields with
  | nil => simp [nodes, mergedFields?]
  | cons field fields ih =>
    obtain ⟨hfield, hsound⟩ := List.forall_mem_cons.mp hsound
    have hcons : nodes (field :: fields) =
        (.scalar .unsaid field.name true, field.node) :: nodes fields := rfl
    rw [hcons, mergedFields?, isMerge_key hfield.own]
    exact ih hsound

/-- Fields with different names are distinct. -/
theorem distinct_nodes {fields : List Field} (hnames : (fields.map Field.name).Nodup) :
    distinct (nodes fields) = true := by
  have hwritings : (nodes fields).map (fun node => node.1.writing) =
      (fields.map Field.name).map fun name => (0, name) := by
    simp [nodes, Node.writing]
  rw [distinct, decide_eq_true_eq]
  show ((nodes fields).map fun node => node.1.writing).Nodup
  rw [hwritings]
  exact List.Pairwise.map _ (fun a b hne h => hne (Prod.mk.inj h).2) hnames

/-- All fields of a mapping. -/
theorem allFields?_nodes (texts : Bool) {fields : List Field} (hsound : ∀ f ∈ fields, f.Sound)
    (hnames : (fields.map Field.name).Nodup) {e : Effort} (he : e.aliased = 0) :
    ∃ e' : Effort, e'.aliased = 0 ∧ distinct (nodes fields) = true ∧
      ownFields? texts false false (nodes fields) [] e = some (table fields, e') ∧
      mergedFields? texts false (nodes fields) (table fields) e' = some (table fields, e') := by
  have hnone : ∀ f ∈ fields, Fields.has [] (.text (utf8Chars f.name)) = false := by
    simp [Fields.has]
  obtain ⟨e', he', hown⟩ := ownFields?_nodes texts hsound hnames hnone he
  exact ⟨e', he', distinct_nodes hnames, hown, mergedFields?_nodes texts hsound _ e'⟩

/-- **The value of a mapping** is the table of its fields. -/
theorem evaluates_mapping {fields : List Field} (hsound : ∀ f ∈ fields, f.Sound)
    (hnames : (fields.map Field.name).Nodup) :
    Evaluates (.mapping (nodes fields)) (.table (table fields)) := by
  intro e he
  obtain ⟨e₁, he₁, hstep⟩ := Effort.step?_own he
  rw [Node.value?, hstep]
  generalize (nodes fields).all _ = known
  obtain ⟨e₂, he₂, hdistinct, hown, hmerged⟩ := allFields?_nodes known hsound hnames he₁
  refine ⟨e₂, he₂, ?_⟩
  simp [hdistinct, hown, hmerged]

/-- The fields of a document that is a mapping. -/
theorem documentFields?_nodes {fields : List Field} (hsound : ∀ f ∈ fields, f.Sound)
    (hnames : (fields.map Field.name).Nodup) :
    documentFields? (.mapping (nodes fields)) = some (table fields) := by
  obtain ⟨e₁, he₁, hstep⟩ := Effort.step?_own (e := {}) rfl
  obtain ⟨e₂, he₂, hdistinct, hown, hmerged⟩ := allFields?_nodes true hsound hnames he₁
  rw [documentFields?, hstep]
  simp [hdistinct, hown, hmerged]

/-! ### The fields of sections -/

/-- Whether a name can be a key and is taken as a text. -/
structure IsTextName (name : List Char) : Prop extends IsKeyName name where
  text : isText (resolvePlain name) = true

/-- A written value has its text. -/
theorem evaluates_written (v : List Char) :
    Evaluates (.scalar .unsaid v (style v = .plain)) (.text (utf8Chars v)) := by
  intro e he
  obtain ⟨e', he', hstep⟩ := Effort.step?_own he
  refine ⟨e', he', ?_⟩
  have hvalue : scalarValue? .unsaid v (style v = .plain) =
      some (.text (utf8Chars v)) := by
    by_cases hstyle : style v = .plain
    · obtain ⟨-, -, hlooks⟩ := isPlainLine_of_style hstyle
      have htext : isText (resolvePlain v) = true := by
        simp only [looksOtherwise, Bool.or_eq_false_iff, Bool.not_eq_false'] at hlooks
        exact hlooks.1.1
      simp [hstyle, scalarValue?, resolvePlain_of_isText htext]
    · simp [hstyle, scalarValue?]
  rw [Node.value?, hstep]
  simp [hvalue]

/-- An entry as a field. -/
def Entry.field (entry : Entry) : Field where
  name := entry.name
  node := .scalar .unsaid entry.value (style entry.value = .plain)
  value := .text (utf8Chars entry.value)

/-- A section as a field. -/
def Section.field (part : Section) : Field where
  name := part.name
  node := .mapping (part.entries.map Entry.node)
  value := .table (table (part.entries.map Entry.field))

/-- A name that is read as text is not the merge mark. -/
theorem IsTextName.ne_merge {name : List Char} (h : IsTextName name) : name ≠ ['<', '<'] := by
  rintro rfl
  cases h.isName

/-- The field of an entry whose name is read as text is sound. -/
theorem Entry.field_sound {entry : Entry} (h : IsTextName entry.name) : entry.field.Sound :=
  ⟨h.text, h.ne_merge, evaluates_written entry.value⟩

/-- Whether the names in a section are different texts. -/
structure Section.WellNamed (part : Section) : Prop where
  name : IsTextName part.name
  entries : ∀ entry ∈ part.entries, IsTextName entry.name
  nodup : (part.entries.map Entry.name).Nodup

/-- The field of a well-named section is sound. -/
theorem Section.field_sound {part : Section} (h : part.WellNamed) : part.field.Sound := by
  have hsound : ∀ f ∈ part.entries.map Entry.field, f.Sound := by
    intro f hf
    obtain ⟨entry, hentry, rfl⟩ := List.mem_map.mp hf
    exact Entry.field_sound (h.entries entry hentry)
  have hnames : ((part.entries.map Entry.field).map Field.name).Nodup := by
    rw [List.map_map]
    exact h.nodup
  have hnodes : nodes (part.entries.map Entry.field) = part.entries.map Entry.node := by
    rw [nodes, List.map_map]
    rfl
  have hvalue := evaluates_mapping hsound hnames
  rw [hnodes] at hvalue
  exact ⟨h.name.text, h.name.ne_merge, hvalue⟩

/-- **The fields of a document of sections**: under the name of each section a table, with the texts
that are read back under the names of its entries. -/
theorem documentFields?_sections {parts : List Section} (hparts : ∀ part ∈ parts, part.WellNamed)
    (hnames : (parts.map Section.name).Nodup) :
    documentFields? (.mapping (parts.map Section.node)) =
      some (table (parts.map Section.field)) := by
  have hsound : ∀ f ∈ parts.map Section.field, f.Sound := by
    intro f hf
    obtain ⟨part, hpart, rfl⟩ := List.mem_map.mp hf
    exact Section.field_sound (hparts part hpart)
  have hnames' : ((parts.map Section.field).map Field.name).Nodup := by
    rw [List.map_map]
    exact hnames
  have hnodes : nodes (parts.map Section.field) = parts.map Section.node := by
    rw [nodes, List.map_map]
    rfl
  exact hnodes ▸ documentFields?_nodes hsound hnames'

end DocHarvest.Yaml
