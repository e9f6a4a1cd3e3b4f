import Mathlib.Data.List.Induction
import DocHarvest.Proofs.Catalog.HeaderEntry

/-!
# The Entries of a Catalog Are Distinct

In a PO file the msgid of an entry is its name, so no two entries should have the same. Among the
messages of a catalog none do: a text that comes again gets a place in the message that it has. The
header is written beside the messages, and its msgid is empty. It shares it with a message exactly
when some documentation string has the empty text, which is written as a message like any other.

Msgids are found here by their lines alone. That asks less of a file than reading all of it, and
agrees with it: where a file can be read, the msgids are those of its entries.

## Main definitions

* `Po.msgids` — the msgids in a PO file.

## Main results

* `Po.map_msgid_of_read?` — the msgids of a file that can be read are those of its entries.
* `Po.msgids_text` — the msgids of a catalog are that of the header and the texts of its messages.
* `Po.msgids_offerAll` — exactly when the msgids of a catalog are distinct.
-/

namespace DocHarvest

namespace Po

/-- The msgids in some lines, one for each line that starts with the name of the field. -/
def msgidsIn : List Bytes → List Bytes
  | [] => []
  | line :: rest =>
    match field? (utf8 "msgid ") (line :: rest) with
    | some (msgid, _) => msgid :: msgidsIn rest
    | none => msgidsIn rest

/-- The msgids in a PO file. -/
def msgids (text : Bytes) : List Bytes :=
  msgidsIn (text.splitOn Byte.lineFeed)

/-! ### Lines that hold no msgid -/

/-- A line that does not start with the name of the field. -/
def IsOther (line : Bytes) : Prop :=
  Bytes.dropStem? (utf8 "msgid ") line = none

/-- A line that starts no identifier is passed over. -/
theorem msgidsIn_cons_of_isOther {line : Bytes} (h : IsOther line) (rest : List Bytes) :
    msgidsIn (line :: rest) = msgidsIn rest := by
  have hstem : Bytes.dropStem? (utf8 "msgid ") line = none := h
  have hnone : field? (utf8 "msgid ") (line :: rest) = none := by
    rw [field?, hstem]
    rfl
  rw [msgidsIn, hnone]

/-- Lines that start no identifier are passed over. -/
theorem msgidsIn_append_of_isOther {ls : List Bytes} (h : ∀ line ∈ ls, IsOther line)
    (rest : List Bytes) : msgidsIn (ls ++ rest) = msgidsIn rest := by
  induction ls with
  | nil => rfl
  | cons line others ih =>
    obtain ⟨hline, hothers⟩ := List.forall_mem_cons.mp h
    rw [List.cons_append, msgidsIn_cons_of_isOther hline, ih hothers]

/-- A line that starts with something else than the name is another line. -/
theorem isOther_append (stem more : Bytes)
    (h : ¬ stem <+: utf8 "msgid " ∧ ¬ utf8 "msgid " <+: stem) : IsOther (stem ++ more) := by
  have hnot : ¬ utf8 "msgid " <+: stem ++ more := by
    intro hname
    rcases List.prefix_or_prefix_of_prefix (List.prefix_append stem more) hname with hpre | hpre
    · exact h.1 hpre
    · exact h.2 hpre
  rw [← List.isPrefixOf_iff_prefix] at hnot
  rw [IsOther, Bytes.dropStem?, if_neg hnot]

/-- An empty line starts no identifier. -/
theorem isOther_nil : IsOther [] := rfl

/-- A line that goes on with a quoted text starts no identifier. -/
theorem isOther_of_quote (inside : Bytes) : IsOther (Byte.doubleQuote :: inside) :=
  isOther_append [Byte.doubleQuote] inside (by decide)

/-- A line with another stem starts no identifier. -/
theorem isOther_of_dropStem? {stem line items : Bytes}
    (h : ¬ stem <+: utf8 "msgid " ∧ ¬ utf8 "msgid " <+: stem)
    (hline : Bytes.dropStem? stem line = some items) : IsOther line := by
  rw [Bytes.dropStem?] at hline
  split at hline
  · next hpre =>
    obtain ⟨more, rfl⟩ := List.isPrefixOf_iff_prefix.mp hpre
    exact isOther_append stem more h
  · simp at hline

/-! ### Files that can be read -/

/-- The strings at the start of some lines, when other lines follow them. -/
theorem strings_append {ls : List Bytes} (h : (strings ls).2 ≠ []) (rest : List Bytes) :
    strings (ls ++ rest) = ((strings ls).1, (strings ls).2 ++ rest) := by
  induction ls with
  | nil => exact absurd rfl h
  | cons line others ih =>
    cases hread : quoted? line with
    | none => simp [strings, hread]
    | some s =>
      simp only [strings, hread] at h
      simp only [List.cons_append, strings, hread, ih h]

/-- No msgid starts in a quoted string. -/
theorem msgidsIn_strings (ls rest : List Bytes) :
    msgidsIn (ls ++ rest) = msgidsIn ((strings ls).2 ++ rest) := by
  induction ls with
  | nil => rfl
  | cons line others ih =>
    cases hread : quoted? line with
    | none => simp [strings, hread]
    | some s =>
      obtain ⟨inside, rfl, -⟩ := exists_inside_of_quoted? hread
      simp only [strings, hread]
      rw [List.cons_append, msgidsIn_cons_of_isOther (isOther_of_quote inside), ih]

/-- No msgid starts in a line of references. -/
theorem msgidsIn_references {ls others : List Bytes} {places : List Occurrence}
    (h : references? ls = some (places, others)) (rest : List Bytes) :
    msgidsIn (ls ++ rest) = msgidsIn (others ++ rest) := by
  induction ls generalizing places with
  | nil =>
    obtain ⟨-, rfl⟩ := Prod.mk.inj (Option.some.inj h)
    rfl
  | cons line lines ih =>
    rw [references?] at h
    cases hline : Bytes.dropStem? (utf8 "#:") line with
    | none =>
      rw [hline] at h
      obtain ⟨-, rfl⟩ := Prod.mk.inj (Option.some.inj h)
      rfl
    | some items =>
      simp only [hline, Option.bind_eq_bind, Option.bind_eq_some_iff] at h
      obtain ⟨here, -, ⟨more, others'⟩, hmore, hpair⟩ := h
      obtain ⟨-, rfl⟩ := Prod.mk.inj (Option.some.inj hpair)
      rw [List.cons_append, msgidsIn_cons_of_isOther (isOther_of_dropStem? (by decide) hline),
        ih hmore]

/-- A field that is read starts with its name, and a quoted string stands after it. -/
theorem exists_of_field? {name msg : Bytes} {ls others : List Bytes}
    (h : field? name ls = some (msg, others)) :
    ∃ line rest stem first, ls = line :: rest ∧ Bytes.dropStem? name line = some stem ∧
      quoted? stem = some first ∧ msg = first ++ (strings rest).1 ∧ others = (strings rest).2 := by
  cases ls with
  | nil => simp [field?] at h
  | cons line rest =>
    simp only [field?, Option.bind_eq_bind, Option.bind_eq_some_iff] at h
    obtain ⟨stem, hstem, first, hfirst, hpair⟩ := h
    obtain ⟨rfl, rfl⟩ := Prod.mk.inj (Option.some.inj hpair)
    exact ⟨line, rest, stem, first, rfl, hstem, hfirst, rfl, rfl⟩

/-- **The lines of an entry hold its msgid and no other.** -/
theorem msgidsIn_of_entryOf? {block : List Bytes} {e : Entry} (h : entryOf? block = some e)
    (rest : List Bytes) : msgidsIn (block ++ rest) = e.msgid :: msgidsIn rest := by
  simp only [entryOf?, Option.bind_eq_bind, Option.bind_eq_some_iff] at h
  obtain ⟨⟨places, named⟩, hplaces, ⟨msgid, after⟩, hmsgid, ⟨msgstr, last⟩, hmsgstr, hend⟩ := h
  obtain ⟨line, lines, stem, first, rfl, hstem, hfirst, rfl, rfl⟩ := exists_of_field? hmsgid
  obtain ⟨line', lines', stem', -, hafter, hstem', -, -, rfl⟩ := exists_of_field? hmsgstr
  obtain ⟨hlast, rfl⟩ : (strings lines').2 = [] ∧ Entry.mk places _ msgstr = e := by
    simpa using hend
  have hmore : (strings lines).2 ≠ [] := hafter ▸ List.cons_ne_nil line' lines'
  have hread : field? (utf8 "msgid ") (line :: (lines ++ rest)) =
      some (first ++ (strings lines).1, (strings lines).2 ++ rest) := by
    simp [field?, hstem, hfirst, strings_append hmore]
  have hothers : msgidsIn (lines ++ rest) = msgidsIn rest := by
    rw [msgidsIn_strings, hafter, List.cons_append,
      msgidsIn_cons_of_isOther (isOther_of_dropStem? (by decide) hstem'), msgidsIn_strings, hlast,
      List.nil_append]
  rw [msgidsIn_references hplaces, List.cons_append, msgidsIn, hread]
  exact congrArg _ hothers

/-- The identifiers in the lines of some blocks are those of the entries. -/
theorem msgidsIn_of_blocks {blocks : List (List Bytes)} {entries : List Entry}
    (h : (blocks.filter fun block => !block.isEmpty).mapM entryOf? = some entries) :
    msgidsIn ([[]].intercalate blocks) = entries.map Entry.msgid := by
  induction blocks generalizing entries with
  | nil =>
    obtain rfl := Option.some.inj h
    rfl
  | cons block others ih =>
    obtain ⟨rest, hlines, hrest⟩ : ∃ rest, [[]].intercalate (block :: others) = block ++ rest ∧
        msgidsIn rest = msgidsIn ([[]].intercalate others) := by
      cases others with
      | nil => exact ⟨[], by rw [List.intercalate_singleton, List.append_nil], rfl⟩
      | cons next more =>
        refine ⟨[] :: [[]].intercalate (next :: more), ?_, msgidsIn_cons_of_isOther isOther_nil _⟩
        rw [List.intercalate_cons_cons, List.append_assoc, List.singleton_append]
    rw [hlines]
    by_cases hblock : block = []
    · subst hblock
      rw [List.filter_cons_of_neg (by simp)] at h
      rw [List.nil_append, hrest, ih h]
    · rw [List.filter_cons_of_pos (by simpa using hblock), List.mapM_cons] at h
      simp only [Option.bind_eq_bind, Option.bind_eq_some_iff] at h
      obtain ⟨e, he, more, hmore, hentries⟩ := h
      obtain rfl := Option.some.inj hentries
      rw [msgidsIn_of_entryOf? he, hrest, ih hmore, List.map_cons]

/-- **The msgids of a file that can be read are those of its entries.** -/
theorem map_msgid_of_read? {text : Bytes} {entries : List Entry} (h : read? text = some entries) :
    entries.map Entry.msgid = msgids text := by
  have hblocks := msgidsIn_of_blocks h
  rw [List.intercalate_splitOn] at hblocks
  exact hblocks.symm

/-! ### The text of a catalog -/

/-- The header has the empty identifier. -/
theorem msgidsIn_headerLines (h : CatalogHeader) (rest : List Bytes) :
    msgidsIn (headerLines h ++ rest) = [] :: msgidsIn rest := by
  have hfields : ∀ line ∈ (headerFields h).map fieldLine, IsOther line := by
    intro line hmem
    obtain ⟨field, -, rfl⟩ := List.mem_map.mp hmem
    exact isOther_of_quote _
  rw [headerLines_eq, ← msgidsIn_append_of_isOther hfields rest]
  exact msgidsIn_of_entryOf? (entryOf?_opening []) _

/-- The entry of a message has its text as the identifier. Whether its places can be read does not
matter, since the message without any has the same lines. -/
theorem msgidsIn_entryLines (m : Message) (rest : List Bytes) :
    msgidsIn (entryLines m ++ rest) = m.text :: msgidsIn rest := by
  have hbare := msgidsIn_of_entryOf?
    (entryOf?_entryLines (m := ⟨m.text, [], []⟩) (fun _ => List.not_mem_nil.elim)) rest
  have hreferences : ∀ items, IsOther (utf8 "#:" ++ items) := fun items =>
    isOther_append (utf8 "#:") items (by decide)
  rw [entryLines, List.cons_append, msgidsIn_cons_of_isOther (hreferences _)] at hbare ⊢
  exact hbare

/-- The entries of some messages have their texts as the identifiers, in order. -/
theorem msgidsIn_messages (messages : List Message) :
    msgidsIn ((messages.map entryLines).flatMap ([] :: ·) ++ [[]]) =
      messages.map Message.text := by
  induction messages with
  | nil => rfl
  | cons m others ih =>
    rw [List.map_cons, List.flatMap_cons, List.cons_append, List.cons_append,
      msgidsIn_cons_of_isOther isOther_nil, List.append_assoc, msgidsIn_entryLines, ih,
      List.map_cons]

/-- **The msgids of a catalog are that of the header, which is empty, and the texts of its
messages**, as long as nothing that is written as it is holds a line feed. -/
theorem msgids_text {catalog : Catalog}
    (hheader : ∀ field ∈ headerFields catalog.header, Byte.lineFeed ∉ field.2)
    (hplaces : ∀ m ∈ catalog.messages, ∀ o ∈ m.occurrences, Byte.lineFeed ∉ o.source) :
    msgids catalog.text = [] :: catalog.messages.map Message.text := by
  have hfields : ∀ line ∈ headerLines catalog.header, Byte.lineFeed ∉ line := by
    rw [headerLines_eq]
    refine List.forall_mem_cons.mpr ⟨by decide, List.forall_mem_cons.mpr ⟨by decide, ?_⟩⟩
    intro line hmem
    obtain ⟨field, hfield, rfl⟩ := List.mem_map.mp hmem
    refine (isLine_inQuotes ?_).2
    exact List.not_mem_append (List.not_mem_append (isPlain_headerName _ field hfield).1
      (hheader field hfield)) (by decide)
  have hlines : ∀ line ∈ headerLines catalog.header ++
      (catalog.messages.map entryLines).flatMap ([] :: ·), Byte.lineFeed ∉ line := by
    refine List.forall_mem_append.mpr ⟨hfields, fun line hmem => ?_⟩
    obtain ⟨block, hblock, hmem⟩ := List.mem_flatMap.mp hmem
    obtain ⟨m, hm, rfl⟩ := List.mem_map.mp hblock
    rcases List.mem_cons.mp hmem with rfl | hmem
    · exact List.not_mem_nil
    · exact (isLine_entryLines (hplaces m hm) line hmem).2
  rw [msgids, text_eq_unlines, splitOn_unlines hlines, List.append_assoc, msgidsIn_headerLines,
    msgidsIn_messages]

end Po

/-! ### Distinct messages -/

/-- No text is listed twice. -/
theorem DocString.nodup_texts (ds : List DocString) : (DocString.texts ds).Nodup := by
  induction ds using List.reverseRecOn with
  | nil => exact List.nodup_nil
  | append_singleton ds d ih =>
    by_cases hmem : d.text ∈ DocString.texts ds
    · rwa [DocString.texts_append_of_mem hmem]
    · rw [DocString.texts_append_of_not_mem hmem]
      refine List.nodup_append.mpr ⟨ih, List.pairwise_singleton _ _, ?_⟩
      rintro text htext _ hlast rfl
      exact hmem (List.mem_singleton.mp hlast ▸ htext)

/-- The messages of a catalog have the different texts of its strings, in order. -/
theorem Catalog.Groups.map_text {header : CatalogHeader} {ds : List DocString} {catalog : Catalog}
    (h : Catalog.Groups header ds catalog) :
    catalog.messages.map Message.text = DocString.texts ds := by
  rw [h.messages, List.map_map]
  exact List.map_id _

/-- The places in a catalog are in the sources of its strings. -/
theorem Catalog.Groups.mem_source {header : CatalogHeader} {ds : List DocString}
    {catalog : Catalog} (h : Catalog.Groups header ds catalog) {m : Message}
    (hm : m ∈ catalog.messages) {o : Occurrence} (ho : o ∈ m.occurrences) :
    ∃ d ∈ ds, d.source = o.source := by
  rw [h.messages] at hm
  obtain ⟨text, -, rfl⟩ := List.mem_map.mp hm
  rw [Message.occurrences_ofSharing] at ho
  obtain ⟨d, hd, rfl⟩ := List.mem_map.mp ho
  exact ⟨d, (List.mem_filter.mp hd).1, rfl⟩

/-- **Exactly when the msgids of a catalog are distinct.** Whatever documentation strings a catalog
has been offered, its text holds the empty msgid of the header and, in order, the texts of its
messages. No two messages have one text, so two entries have one msgid exactly when a string with
the empty text was offered: its msgid is that of the header. -/
theorem Po.msgids_offerAll (header : CatalogHeader) (ds : List DocString)
    (hheader : ∀ field ∈ Po.headerFields header, Byte.lineFeed ∉ field.2)
    (hsources : ∀ d ∈ ds, Byte.lineFeed ∉ d.source) :
    let catalog := (Catalog.offerAll ds { header }).2
    Po.msgids catalog.text = [] :: catalog.messages.map Message.text ∧
    (catalog.messages.map Message.text).Nodup ∧
    ((Po.msgids catalog.text).Nodup ↔ ∀ d ∈ ds, d.text ≠ []) ∧
    ∀ entries, Po.read? catalog.text = some entries →
      entries.map Po.Entry.msgid = Po.msgids catalog.text := by
  intro catalog
  obtain ⟨final, hoffer, hadd⟩ := Catalog.offerAll_eq ds { header }
  have hcatalog : catalog = final := congrArg Prod.snd hoffer
  have hgroups : Catalog.Groups header (ds.filter fun d => Utf8.IsText d.text) catalog :=
    hcatalog ▸ (Catalog.groups_nil header).addAll hadd
  have hmsgids : Po.msgids catalog.text = [] :: catalog.messages.map Message.text := by
    refine Po.msgids_text (by rwa [hgroups.header]) fun m hm o ho => ?_
    obtain ⟨d, hd, hsource⟩ := hgroups.mem_source hm ho
    exact hsource ▸ hsources d (List.mem_filter.mp hd).1
  have hnodup : (catalog.messages.map Message.text).Nodup :=
    hgroups.map_text ▸ DocString.nodup_texts _
  refine ⟨hmsgids, hnodup, ?_, fun entries => Po.map_msgid_of_read?⟩
  rw [hmsgids, List.nodup_cons, and_iff_left hnodup, hgroups.map_text, DocString.mem_texts]
  constructor
  · intro hnone d hd hempty
    refine hnone ⟨d, List.mem_filter.mpr ⟨hd, ?_⟩, hempty⟩
    rw [hempty]
    decide
  · rintro hall ⟨d, hd, hempty⟩
    exact hall d (List.mem_filter.mp hd).1 hempty

/-- Among texts that look like entries, the empty one is all that repeats a msgid. -/
theorem Po.msgids_offerAll_awkward :
    let catalog (ds : List DocString) : Catalog :=
      (Catalog.offerAll ds { header := Settings.default.catalog }).2
    (∀ field ∈ Po.headerFields Settings.default.catalog, Byte.lineFeed ∉ field.2) ∧
    (∀ d ∈ Po.awkward, Byte.lineFeed ∉ d.source) ∧
    ¬ (Po.msgids (catalog Po.awkward).text).Nodup ∧
    (Po.msgids (catalog (Po.awkward.filter fun d => !d.text.isEmpty)).text).Nodup := by
  have hheader : ∀ field ∈ Po.headerFields Settings.default.catalog,
      Byte.lineFeed ∉ field.2 := by
    decide +kernel
  have hsources : ∀ d ∈ Po.awkward, Byte.lineFeed ∉ d.source := by decide +kernel
  obtain ⟨-, -, hall, -⟩ := Po.msgids_offerAll _ _ hheader hsources
  obtain ⟨-, -, hsome, -⟩ := Po.msgids_offerAll _ (Po.awkward.filter fun d => !d.text.isEmpty)
    hheader fun d hd => hsources d (List.mem_filter.mp hd).1
  exact ⟨hheader, hsources, fun h => absurd (hall.mp h) (by decide +kernel),
    hsome.mpr (by decide +kernel)⟩

/-- Three catalogs with two entries of one msgid: the header and a message with the empty text; two
that the name of a source with line feeds in it makes of one message; and a message and what a
value of the header with line feeds in it makes. -/
theorem Po.msgids_repeated :
    let msgids (catalog : Catalog) : Option (List Bytes) :=
      (Po.read? catalog.text).map fun entries => entries.map Po.Entry.msgid
    msgids (Catalog.offerAll [⟨[], utf8 "a.py", 1⟩] { header := Settings.default.catalog }).2 =
      some [[], []] ∧
    msgids (Catalog.offerAll [⟨utf8 "x", utf8 "a.py:1\nmsgid \"x\"\nmsgstr \"\"\n\n#: b.py", 1⟩]
      { header := Settings.default.catalog }).2 = some [[], utf8 "x", utf8 "x"] ∧
    msgids (Po.versioned "1\\n\"\n\nmsgid \"x\"\nmsgstr \"") = some [[], utf8 "x", utf8 "x"] := by
  decide +kernel

end DocHarvest
