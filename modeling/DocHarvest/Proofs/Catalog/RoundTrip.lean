import DocHarvest.Proofs.Catalog.Grouping
import DocHarvest.Proofs.Catalog.Reader

/-!
# Reading a Catalog Back

What the reader of the PO format finds in the text of a catalog is that catalog: the fields of
its header, and each message with its text and its places. The text is taken apart as it was put
together: into lines, the lines into blocks with empty lines between them, and each block into
the fields of one entry.

Places are found as long as no source has a blank or a line feed in its name, and the header is
found as long as its values need no escaping, since they are written as they are.

## Main results

* `Po.entryOf?_entryLines`, `Po.entryOf?_headerLines` — one entry is read as what was written.
* `Po.read?_blocks` — a file is read entry by entry.
* `Po.read?_text` — a catalog is read from its text.
-/

namespace DocHarvest

namespace Po

/-! ### Fields -/

/-- Lines with the name of a field before the first. -/
def headed (name : Bytes) : List Bytes → List Bytes
  | [] => []
  | first :: others => (name ++ first) :: others

/-- Lines with a name before the first are written as the name and the lines. -/
theorem unlines_headed (name : Bytes) {ls : List Bytes} (h : ls ≠ []) :
    unlines (headed name ls) = name ++ unlines ls := by
  obtain ⟨first, others, rfl⟩ := List.exists_cons_of_ne_nil h
  simp [headed]

/-- Lines that are each read as a quoted text are read as all of these together. -/
theorem strings_of_forall {α : Type} {as : List α} {line value : α → Bytes} {rest : List Bytes}
    (hread : ∀ a ∈ as, quoted? (line a) = some (value a)) (hrest : strings rest = ([], rest)) :
    strings (as.map line ++ rest) = (as.flatMap value, rest) := by
  induction as with
  | nil => exact hrest
  | cons a others ih =>
    obtain ⟨ha, hothers⟩ := List.forall_mem_cons.mp hread
    simp [strings, ha, ih hothers]

/-- A field is read as what its quoted strings spell together. -/
theorem field?_headed {α : Type} {as : List α} {line value : α → Bytes} {rest : List Bytes}
    (name : Bytes) (hne : as ≠ []) (hread : ∀ a ∈ as, quoted? (line a) = some (value a))
    (hrest : strings rest = ([], rest)) :
    field? name (headed name (as.map line) ++ rest) = some (as.flatMap value, rest) := by
  obtain ⟨first, others, rfl⟩ := List.exists_cons_of_ne_nil hne
  obtain ⟨hfirst, hothers⟩ := List.forall_mem_cons.mp hread
  simp [headed, field?, dropStem?_append, hfirst, strings_of_forall hothers hrest]

/-- The lines of a text. -/
def textLines (s : Bytes) : List Bytes :=
  (parts s).map fun part => inQuotes (spelled part)

/-- Every text takes at least one line. -/
theorem textLines_ne_nil (s : Bytes) : textLines s ≠ [] := by
  simpa [textLines] using parts_ne_nil s

/-- **A field is read back** from its name and the lines of its text. -/
theorem field?_textLines (name s : Bytes) {rest : List Bytes}
    (hrest : strings rest = ([], rest)) :
    field? name (headed name (textLines s) ++ rest) = some (s, rest) := by
  rw [textLines, field?_headed name (parts_ne_nil s) (fun part _ => quoted?_spelled part) hrest,
    List.flatMap_id', flatten_parts]

/-- The name of a translation ends the quoted texts before it. -/
theorem strings_msgstr (ls : List Bytes) (h : ls ≠ []) :
    strings (headed (utf8 "msgstr ") ls) = ([], headed (utf8 "msgstr ") ls) := by
  obtain ⟨first, others, rfl⟩ := List.exists_cons_of_ne_nil h
  rfl

/-- The name of an identifier ends the places before it. -/
theorem references?_msgid {ls : List Bytes} (h : ls ≠ []) (rest : List Bytes) :
    references? (headed (utf8 "msgid ") ls ++ rest) =
      some ([], headed (utf8 "msgid ") ls ++ rest) := by
  obtain ⟨first, others, rfl⟩ := List.exists_cons_of_ne_nil h
  rfl

/-! ### Entries -/

/-- The lines of a message. -/
def entryLines (m : Message) : List Bytes :=
  (utf8 "#:" ++ m.occurrences.flatMap fun o => Byte.space :: item o) ::
    (headed (utf8 "msgid ") (textLines m.text) ++ headed (utf8 "msgstr ") (textLines []))

/-- An entry is written as its lines. -/
theorem entry_eq_unlines (m : Message) : entry m = unlines (entryLines m) := by
  have hreference : reference = fun o => Byte.space :: item o := by
    funext o
    have hspace : utf8 " " = [Byte.space] := by decide
    have hcolon : utf8 ":" = [colon] := by decide
    simp [reference, item, hspace, hcolon]
  have hfeed : utf8 "\n" = [Byte.lineFeed] := by decide
  have hmsgstr : utf8 "msgstr \"\"\n" = unlines (headed (utf8 "msgstr ") (textLines [])) := by
    decide
  simp only [entry, entryLines, hreference, hfeed, hmsgstr, quotedLines_eq, unlines_cons,
    unlines_append, unlines_headed _ (textLines_ne_nil m.text), List.append_assoc]
  rfl

/-- An entry is read as the message that it was written from. -/
theorem entryOf?_entryLines {m : Message} (h : ∀ o ∈ m.occurrences, Byte.space ∉ o.source) :
    entryOf? (entryLines m) = some ⟨m.occurrences, m.text, []⟩ := by
  have hmsgstr : field? (utf8 "msgstr ") (headed (utf8 "msgstr ") (textLines []) ++ []) =
      some ([], []) := field?_textLines _ _ rfl
  rw [List.append_nil] at hmsgstr
  have hmsgid := field?_textLines (utf8 "msgid ") m.text
    (strings_msgstr _ (textLines_ne_nil []))
  rw [entryOf?, entryLines, references?_line h, references?_msgid (textLines_ne_nil m.text)]
  simp [hmsgid, hmsgstr]

/-- The quoted strings of the header: what stands between the quotes, and what that spells. The
first string is empty, and the others have one field each. -/
def headerStrings (h : CatalogHeader) : List (Bytes × Bytes) :=
  ([], []) :: (headerFields h).map fun (name, value) =>
    (utf8 name ++ utf8 ": " ++ value ++ utf8 "\\n",
      utf8 name ++ utf8 ": " ++ value ++ [Byte.lineFeed])

/-- The lines of the header. -/
def headerLines (h : CatalogHeader) : List Bytes :=
  headed (utf8 "msgid ") (textLines []) ++
    headed (utf8 "msgstr ") ((headerStrings h).map fun string => inQuotes string.1)

/-- The header is written as its lines. -/
theorem header_eq_unlines (h : CatalogHeader) : header h = unlines (headerLines h) := by
  have hopening : utf8 "msgid \"\"\nmsgstr \"\"\n" =
      unlines (headed (utf8 "msgid ") (textLines [])) ++
        (utf8 "msgstr " ++ unlines [inQuotes []]) := by
    decide
  have hfields : ∀ fields : List (String × Bytes),
      (fields.flatMap fun (name, value) => headerLine name value) =
        unlines (fields.map fun (name, value) =>
          inQuotes (utf8 name ++ utf8 ": " ++ value ++ utf8 "\\n")) := by
    intro fields
    simp only [headerLine, quotedLine_eq, unlines, List.flatMap_map, List.flatMap_singleton]
  have hstrings : (headerStrings h).map (fun string => inQuotes string.1) =
      inQuotes [] :: (headerFields h).map fun (name, value) =>
        inQuotes (utf8 name ++ utf8 ": " ++ value ++ utf8 "\\n") := by
    rw [headerStrings, List.map_cons, List.map_map]
    rfl
  rw [header, hopening, hfields, headerLines, hstrings, unlines_append,
    unlines_headed (utf8 "msgstr ") (List.cons_ne_nil _ _), List.append_assoc, List.append_assoc,
    ← unlines_append]
  rfl

/-- The fields of a header, one on each line. -/
def headerText (h : CatalogHeader) : Bytes :=
  (headerFields h).flatMap fun (name, value) =>
    utf8 name ++ utf8 ": " ++ value ++ [Byte.lineFeed]

/-- A value that is the same inside a quoted string. -/
def IsPlain (value : Bytes) : Prop :=
  Byte.lineFeed ∉ value ∧ Byte.doubleQuote ∉ value ∧ Byte.backslash ∉ value

instance (value : Bytes) : Decidable (IsPlain value) :=
  inferInstanceAs (Decidable (_ ∧ _))

/-- The names of the header's fields have no special byte. -/
theorem isPlain_headerName (h : CatalogHeader) :
    ∀ field ∈ headerFields h, IsPlain (utf8 field.1 ++ utf8 ": ") := by
  intro field hmem
  have hname : field.1 ∈ (headerFields h).map Prod.fst := List.mem_map_of_mem hmem
  have hall : ∀ name ∈ (headerFields h).map Prod.fst, IsPlain (utf8 name ++ utf8 ": ") := by
    show ∀ name ∈ ["Project-Id-Version", "Report-Msgid-Bugs-To", "POT-Creation-Date",
      "PO-Revision-Date", "Last-Translator", "Language-Team", "MIME-Version", "Content-Type",
      "Content-Transfer-Encoding"], IsPlain (utf8 name ++ utf8 ": ")
    decide
  exact hall _ hname

/-- The header is read as its fields, as long as their values are plain. -/
theorem entryOf?_headerLines {h : CatalogHeader}
    (hplain : ∀ field ∈ headerFields h, IsPlain field.2) :
    entryOf? (headerLines h) = some ⟨[], [], headerText h⟩ := by
  have hread : ∀ string ∈ headerStrings h, quoted? (inQuotes string.1) = some string.2 := by
    intro string hmem
    rcases List.mem_cons.mp hmem with rfl | hmem
    · rfl
    · obtain ⟨field, hfield, rfl⟩ := List.mem_map.mp hmem
      obtain ⟨-, hnameQuote, hnameBackslash⟩ := isPlain_headerName h field hfield
      obtain ⟨-, hquote, hbackslash⟩ := hplain field hfield
      exact quoted?_plain (List.not_mem_append hnameQuote hquote)
        (List.not_mem_append hnameBackslash hbackslash) [Byte.lineFeed]
  have hmsgstr : field? (utf8 "msgstr ") (headed (utf8 "msgstr ")
      ((headerStrings h).map fun string => inQuotes string.1) ++ []) =
        some ((headerStrings h).flatMap Prod.snd, []) :=
    field?_headed _ (List.cons_ne_nil _ _) hread rfl
  have hmsgid := field?_textLines (utf8 "msgid ") []
    (strings_msgstr ((headerStrings h).map fun string => inQuotes string.1)
      (by simp [headerStrings]))
  have htext : (headerStrings h).flatMap Prod.snd = headerText h := by
    simp [headerStrings, headerText, List.flatMap_map]
  rw [List.append_nil, htext] at hmsgstr
  rw [entryOf?, headerLines, references?_msgid (textLines_ne_nil [])]
  simp [hmsgid, hmsgstr]

/-! ### Files -/

/-- A line that can stand in an entry. -/
def IsLine (line : Bytes) : Prop :=
  line ≠ [] ∧ Byte.lineFeed ∉ line

/-- A text without a line feed is one line when it stands in quotes. -/
theorem isLine_inQuotes {inside : Bytes} (h : Byte.lineFeed ∉ inside) :
    IsLine (inQuotes inside) := by
  have hquote : Byte.lineFeed ≠ Byte.doubleQuote := by decide
  refine ⟨List.cons_ne_nil _ _, ?_⟩
  simpa [inQuotes, hquote] using h

/-- A name without a line feed before lines leaves them lines. -/
theorem isLine_headed {name : Bytes} {ls : List Bytes} (hname : Byte.lineFeed ∉ name)
    (h : ∀ line ∈ ls, IsLine line) : ∀ line ∈ headed name ls, IsLine line := by
  cases ls with
  | nil => simp [headed]
  | cons first others =>
    obtain ⟨hfirst, hothers⟩ := List.forall_mem_cons.mp h
    refine List.forall_mem_cons.mpr ⟨⟨?_, List.not_mem_append hname hfirst.2⟩, hothers⟩
    exact List.append_ne_nil_of_right_ne_nil _ hfirst.1

/-- A text is written in lines without a line feed in them. -/
theorem isLine_textLines (s : Bytes) : ∀ line ∈ textLines s, IsLine line := by
  intro line hmem
  obtain ⟨part, -, rfl⟩ := List.mem_map.mp hmem
  exact isLine_inQuotes (lineFeed_not_mem_spelled part)

/-- So is an entry, if no source has a line feed in its name. -/
theorem isLine_entryLines {m : Message} (h : ∀ o ∈ m.occurrences, Byte.lineFeed ∉ o.source) :
    ∀ line ∈ entryLines m, IsLine line := by
  have hitem : ∀ o ∈ m.occurrences, Byte.lineFeed ∉ Byte.space :: item o := by
    intro o ho
    simp only [item, List.mem_append, List.mem_cons, not_or]
    refine ⟨by decide, h o ho, by decide, fun hline => ?_⟩
    exact absurd (mem_decimal hline).1 (by decide)
  refine List.forall_mem_cons.mpr ⟨⟨?_, ?_⟩, List.forall_mem_append.mpr ⟨?_, ?_⟩⟩
  · exact List.append_ne_nil_of_left_ne_nil (by decide) _
  · refine List.not_mem_append (by decide) fun hmem => ?_
    obtain ⟨o, ho, hmem⟩ := List.mem_flatMap.mp hmem
    exact hitem o ho hmem
  · exact isLine_headed (by decide) (isLine_textLines m.text)
  · exact isLine_headed (by decide) (isLine_textLines [])

/-- So is a header with plain values. -/
theorem isLine_headerLines {h : CatalogHeader}
    (hplain : ∀ field ∈ headerFields h, IsPlain field.2) :
    ∀ line ∈ headerLines h, IsLine line := by
  refine List.forall_mem_append.mpr ⟨isLine_headed (by decide) (isLine_textLines []),
    isLine_headed (by decide) fun line hmem => ?_⟩
  obtain ⟨string, hstring, rfl⟩ := List.mem_map.mp hmem
  refine isLine_inQuotes ?_
  rcases List.mem_cons.mp hstring with rfl | hstring
  · exact List.not_mem_nil
  · obtain ⟨field, hfield, rfl⟩ := List.mem_map.mp hstring
    exact List.not_mem_append (List.not_mem_append (isPlain_headerName h field hfield).1
      (hplain field hfield).1) (by decide)

/-- Lines that were written are split at their ends again, with an empty one after the last. -/
theorem splitOn_unlines {ls : List Bytes} (h : ∀ line ∈ ls, Byte.lineFeed ∉ line) :
    (unlines ls).splitOn Byte.lineFeed = ls ++ [[]] := by
  induction ls with
  | nil => rfl
  | cons line others ih =>
    obtain ⟨hline, hothers⟩ := List.forall_mem_cons.mp h
    rw [unlines_cons, List.append_assoc, List.singleton_append,
      List.splitOn_append_cons_self_of_not_mem hline, ih hothers]
    rfl

/-- Entries with an empty line before each but the first are read one by one. -/
theorem read?_blocks {first : List Bytes} {others : List (List Bytes)}
    (hlines : ∀ block ∈ first :: others, block ≠ [] ∧ ∀ line ∈ block, IsLine line) :
    read? (unlines (first ++ others.flatMap ([] :: ·))) = (first :: others).mapM entryOf? := by
  obtain ⟨hfirst, hothers⟩ := List.forall_mem_cons.mp hlines
  have hfeeds : ∀ line ∈ first ++ others.flatMap ([] :: ·), Byte.lineFeed ∉ line := by
    refine List.forall_mem_append.mpr ⟨fun line hmem => (hfirst.2 line hmem).2, ?_⟩
    intro line hmem
    obtain ⟨block, hblock, hmem⟩ := List.mem_flatMap.mp hmem
    rcases List.mem_cons.mp hmem with rfl | hmem
    · exact List.not_mem_nil
    · exact ((hothers block hblock).2 line hmem).2
  have hlast : first ++ others.flatMap ([] :: ·) ++ [[]] =
      first ++ (others ++ [[]]).flatMap ([] :: ·) := by
    simp
  have hblocks : (first ++ (others ++ [[]]).flatMap ([] :: ·)).splitOn [] =
      first :: (others ++ [[]]) := by
    refine splitOn_append_flatMap (fun hmem => (hfirst.2 [] hmem).1 rfl) ?_
    refine List.forall_mem_append.mpr ⟨fun block hblock hmem => ?_, by simp⟩
    exact ((hothers block hblock).2 [] hmem).1 rfl
  have hkept : ((first :: (others ++ [[]])).filter fun block => !block.isEmpty) =
      first :: others := by
    have hall : (others.filter fun block => !block.isEmpty) = others :=
      List.filter_eq_self.mpr fun block hblock => by simpa using (hothers block hblock).1
    simp [hfirst.1, hall]
  rw [read?, splitOn_unlines hfeeds, hlast, hblocks, hkept]

/-- A catalog is written as the lines of its header and of its entries, with an empty line before
each entry. -/
theorem text_eq_unlines (catalog : Catalog) : catalog.text =
    unlines (headerLines catalog.header ++
      (catalog.messages.map entryLines).flatMap ([] :: ·)) := by
  have hfeed : utf8 "\n" = [Byte.lineFeed] := by decide
  rw [Catalog.text, header_eq_unlines, unlines_append, List.flatMap_map]
  simp only [entry_eq_unlines, hfeed, unlines, List.flatMap_assoc, List.flatMap_cons,
    List.nil_append]

end Po

/-- **A catalog is read from its text**: the fields of its header, and each message with its text
and its places, in their order. -/
theorem Po.read?_text {header : CatalogHeader} {ds : List DocString} {catalog : Catalog}
    (hadd : ds.foldlM Catalog.add { header } = .ok catalog)
    (hsources : ∀ d ∈ ds, Byte.space ∉ d.source ∧ Byte.lineFeed ∉ d.source)
    (hheader : ∀ field ∈ Po.headerFields header, Po.IsPlain field.2) :
    Po.read? catalog.text = some (⟨[], [], Po.headerText header⟩ ::
      catalog.messages.map fun m => ⟨m.occurrences, m.text, []⟩) := by
  have hgroups := (Catalog.groups_nil header).addAll hadd
  have hplaces : ∀ m ∈ catalog.messages, ∀ o ∈ m.occurrences,
      Byte.space ∉ o.source ∧ Byte.lineFeed ∉ o.source := by
    intro m hm o ho
    rw [hgroups.messages] at hm
    obtain ⟨text, -, rfl⟩ := List.mem_map.mp hm
    rw [Message.occurrences_ofSharing] at ho
    obtain ⟨d, hd, rfl⟩ := List.mem_map.mp ho
    exact hsources d (List.mem_filter.mp hd).1
  have hlines : ∀ block ∈ Po.headerLines header :: catalog.messages.map Po.entryLines,
      block ≠ [] ∧ ∀ line ∈ block, Po.IsLine line := by
    refine List.forall_mem_cons.mpr ⟨⟨?_, Po.isLine_headerLines hheader⟩, ?_⟩
    · exact List.cons_ne_nil _ _
    · intro block hblock
      obtain ⟨m, hm, rfl⟩ := List.mem_map.mp hblock
      exact ⟨List.cons_ne_nil _ _, Po.isLine_entryLines fun o ho => (hplaces m hm o ho).2⟩
  have hmessages : (catalog.messages.map Po.entryLines).mapM Po.entryOf? =
      some (catalog.messages.map fun m => ⟨m.occurrences, m.text, []⟩) :=
    Po.mapM_of_forall fun m hm => Po.entryOf?_entryLines fun o ho => (hplaces m hm o ho).1
  rw [Po.text_eq_unlines, hgroups.header, Po.read?_blocks hlines, List.mapM_cons,
    Po.entryOf?_headerLines hheader, hmessages]
  rfl

/-! ### A catalog of awkward texts -/

/-- Texts that are empty, that look like entries, and that hold every special byte. -/
def Po.awkward : List DocString :=
  [⟨[], utf8 "a:b.py", 3⟩,
    ⟨utf8 "\n\n#: c.py:1\nmsgid \"x\"\n", utf8 "c.py", -7⟩,
    ⟨utf8 "\t\\n\\\r", [], 0⟩,
    ⟨[], utf8 "c.py", 120⟩]

/-- A catalog of strings with line feeds, quotes and backslashes. -/
theorem Po.read?_text_awkward : ∃ catalog,
    Po.awkward.foldlM Catalog.add { header := Settings.default.catalog } = .ok catalog ∧
      catalog.size = 3 ∧
      Po.read? catalog.text = some (⟨[], [], Po.headerText Settings.default.catalog⟩ ::
        catalog.messages.map fun m => ⟨m.occurrences, m.text, []⟩) := by
  have hok : (Po.awkward.foldlM Catalog.add
      { header := Settings.default.catalog }).toOption.map Catalog.size = some 3 := by
    decide +kernel
  cases hadd : Po.awkward.foldlM Catalog.add { header := Settings.default.catalog } with
  | error refusal => simp [hadd, Except.toOption] at hok
  | ok catalog =>
    rw [hadd] at hok
    exact ⟨catalog, rfl, Option.some.inj hok,
      Po.read?_text hadd (by decide +kernel) (by decide +kernel)⟩

end DocHarvest
