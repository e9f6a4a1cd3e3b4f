import DocHarvest.Proofs.Catalog.RoundTrip

/-!
# The Header Entry

The header of a catalog is written by itself: each value stands between quotes as it is, without the
escapes that the texts of messages get. So it is read back only as long as no value needs an escape.
Here this is shown to be exact. A value with a line feed, a quote or a backslash in it is never read
back, whatever the other values and the messages are, and with such values the strings of the header
may end too early, go on too long, or be no strings at all.

The proof counts backslashes. To spell a text in quoted strings takes a backslash for each line feed
and each quote in it, and two for each backslash. The header is written with the backslashes of its
values and one for each of its lines, and that is enough only if the values hold none of the three.

## Main definitions

* `Po.leading?` — the entry at the start of a PO file.
* `Po.isSpecial` — the bytes that a quoted string cannot hold as they are.

## Main results

* `Po.cost_le_of_strings` — the backslashes that it takes to spell a text.
* `Po.read?_unlines_append` — what follows an entry is read as if it stood alone.
* `Po.header_read_iff` — the header is read back exactly when its values are plain.
-/

namespace DocHarvest

namespace Po

/-- The entry at the start of a PO file: it reaches to the first empty line. -/
def leading? (text : Bytes) : Option Entry :=
  entryOf? ((text.splitOn Byte.lineFeed).takeWhile fun line => !line.isEmpty)

/-- The bytes that a quoted string cannot hold as they are. -/
def isSpecial (b : UInt8) : Bool :=
  b = Byte.lineFeed || b = Byte.doubleQuote || b = Byte.backslash

/-- A plain value has no special byte. -/
theorem isPlain_iff_countP {value : Bytes} : IsPlain value ↔ value.countP isSpecial = 0 := by
  rw [List.countP_eq_zero, IsPlain]
  constructor
  · rintro ⟨hfeed, hquote, hback⟩ b hb hspecial
    simp only [isSpecial, Bool.or_eq_true, decide_eq_true_eq] at hspecial
    rcases hspecial with (rfl | rfl) | rfl
    · exact hfeed hb
    · exact hquote hb
    · exact hback hb
  · intro h
    exact ⟨fun hb => h _ hb rfl, fun hb => h _ hb rfl, fun hb => h _ hb rfl⟩

/-! ### The backslashes that a text takes -/

/-- The backslashes that it takes to spell a text: one for each special byte, and one more for each
backslash. -/
def cost (text : Bytes) : Nat :=
  text.count Byte.backslash + text.countP isSpecial

/-- Nothing costs nothing. -/
@[simp] theorem cost_nil : cost [] = 0 := rfl

/-- Costs add up. -/
theorem cost_append (s t : Bytes) : cost (s ++ t) = cost s + cost t := by
  simp only [cost, List.count_append, List.countP_append]
  omega

/-- An escape spells no byte that takes more backslashes than it has. -/
theorem cost_le_of_unescaped {c plain : UInt8} (h : unescaped? c = some plain) :
    cost [plain] ≤ [Byte.backslash, c].count Byte.backslash := by
  by_cases hc : c = Byte.backslash
  · subst hc
    obtain rfl : Byte.backslash = plain := Option.some.inj h
    decide
  · have hplain : plain ∈ [Byte.doubleQuote, Byte.tab, Byte.lineFeed] := by
      rw [unescaped?, if_neg hc] at h
      grind
    have hone : [Byte.backslash, c].count Byte.backslash = 1 := by
      rw [List.count_cons_self, List.count_singleton, if_neg (by simpa using hc)]
    rw [hone]
    simp only [List.mem_cons, List.not_mem_nil, or_false] at hplain
    rcases hplain with rfl | rfl | rfl <;> decide

/-- Each special byte that is read from a quoted text was written with a backslash. -/
theorem cost_le_of_closed {line text : Bytes} (hline : Byte.lineFeed ∉ line)
    (h : closed? line = some text) : cost text ≤ line.count Byte.backslash := by
  fun_induction closed? line generalizing text with
  | case1 => simp at h
  | case2 =>
    obtain rfl := Option.some.inj h
    exact Nat.zero_le _
  | case3 => simp at h
  | case4 => simp at h
  | case5 c rest hquote ih =>
    obtain ⟨plain, hplain, hrest⟩ := Option.bind_eq_some_iff.mp h
    obtain ⟨tail, htail, rfl⟩ := Option.map_eq_some_iff.mp hrest
    have hfirst := cost_le_of_unescaped hplain
    have hothers := ih (fun hmem => hline (by simp [hmem])) htail
    have hcount : (Byte.backslash :: c :: rest).count Byte.backslash =
        [Byte.backslash, c].count Byte.backslash + rest.count Byte.backslash := by
      rw [← List.count_append]
      rfl
    rw [← List.singleton_append, cost_append, hcount]
    omega
  | case6 b c rest hquote hback ih =>
    obtain ⟨tail, htail, rfl⟩ := Option.map_eq_some_iff.mp h
    rw [List.mem_cons, not_or] at hline
    have hothers := ih hline.2 htail
    have hfree : cost [b] = 0 := by
      simp [cost, isSpecial, hquote, hback, Ne.symm hline.1]
    rw [← List.singleton_append, cost_append, hfree, List.count_cons_of_ne hback]
    omega

/-- A quoted string starts with a quote. -/
theorem exists_inside_of_quoted? {line text : Bytes} (h : quoted? line = some text) :
    ∃ inside, line = Byte.doubleQuote :: inside ∧ closed? inside = some text := by
  cases line with
  | nil => simp [quoted?] at h
  | cons b inside =>
    rw [quoted?] at h
    split at h
    · next hb => exact ⟨inside, by rw [hb], h⟩
    · simp at h

/-- **Quoted strings spell no text that takes more backslashes than they have.** -/
theorem cost_le_of_strings {ls : List Bytes} (h : ∀ line ∈ ls, Byte.lineFeed ∉ line) :
    cost (strings ls).1 ≤ ls.flatten.count Byte.backslash := by
  induction ls with
  | nil => exact Nat.le_refl 0
  | cons line others ih =>
    obtain ⟨hline, hothers⟩ := List.forall_mem_cons.mp h
    cases hread : quoted? line with
    | none => simp [strings, hread]
    | some s =>
      have hs : cost s ≤ line.count Byte.backslash := by
        obtain ⟨inside, rfl, hclosed⟩ := exists_inside_of_quoted? hread
        rw [List.count_cons_of_ne (by decide)]
        exact cost_le_of_closed (fun hmem => hline (List.mem_cons_of_mem _ hmem)) hclosed
      simp only [strings, hread, cost_append, List.flatten_cons, List.count_append]
      have := ih hothers
      omega

/-! ### The lines of a file -/

/-- What is written line by line is split at the line feeds within the lines and after them. -/
theorem splitOn_unlines_append (ls : List Bytes) (rest : Bytes) :
    (unlines ls ++ rest).splitOn Byte.lineFeed =
      ls.flatMap (·.splitOn Byte.lineFeed) ++ rest.splitOn Byte.lineFeed := by
  induction ls with
  | nil => rfl
  | cons line others ih =>
    rw [unlines_cons, List.append_assoc, List.append_assoc, List.singleton_append,
      List.splitOn_append_cons_self, ih, List.flatMap_cons, List.append_assoc]

/-- The pieces of a text between line feeds hold all but the line feeds. -/
theorem flatten_splitOn (s : Bytes) :
    (s.splitOn Byte.lineFeed).flatten = s.filter (· ≠ Byte.lineFeed) := by
  induction s with
  | nil => rfl
  | cons b s ih =>
    rw [List.splitOn_cons_eq_if_modifyHead]
    by_cases hb : b = Byte.lineFeed
    · rw [if_pos (by simpa using hb), List.filter_cons_of_neg (by simpa using hb), ← ih]
      rfl
    · rw [if_neg (by simpa using hb), List.filter_cons_of_pos (by simpa using hb), ← ih]
      obtain ⟨piece, others, hsplit⟩ :=
        List.exists_cons_of_ne_nil (List.splitOn_ne_nil Byte.lineFeed s)
      rw [hsplit]
      rfl

/-- Splitting lines once more drops the line feeds in them, and nothing else. -/
theorem flatten_flatMap_splitOn (ls : List Bytes) :
    (ls.flatMap (·.splitOn Byte.lineFeed)).flatten = ls.flatten.filter (· ≠ Byte.lineFeed) := by
  induction ls with
  | nil => rfl
  | cons line others ih =>
    rw [List.flatMap_cons, List.flatten_append, flatten_splitOn, ih, List.flatten_cons,
      List.filter_append]

/-- What follows an entry: nothing, or text after an empty line. -/
def IsApart (rest : Bytes) : Prop :=
  ∃ others, rest.splitOn Byte.lineFeed = [] :: others

/-- The entries of messages are set apart from what stands before them. -/
theorem isApart_messages (messages : List Message) :
    IsApart (messages.flatMap fun m => utf8 "\n" ++ entry m) := by
  cases messages with
  | nil => exact ⟨[], rfl⟩
  | cons m others =>
    have hfeed : utf8 "\n" = [Byte.lineFeed] := by decide
    rw [List.flatMap_cons, hfeed, List.singleton_append, List.cons_append]
    exact ⟨_, List.splitOn_append_cons_self_of_not_mem List.not_mem_nil _⟩

section Leading

variable {ls : List Bytes} {rest : Bytes}

/-- Lines without a line feed are not split any further. -/
theorem flatMap_splitOn_of_isLine (h : ∀ line ∈ ls, IsLine line) :
    ls.flatMap (·.splitOn Byte.lineFeed) = ls := by
  rw [List.flatMap_def, List.map_congr_left fun line hmem =>
    List.splitOn_eq_singleton (h line hmem).2, ← List.flatMap_def, List.flatMap_singleton']

/-- The lines at the start of a file are those of its first entry. -/
theorem leading?_unlines_append (h : ∀ line ∈ ls, IsLine line) (hrest : IsApart rest) :
    leading? (unlines ls ++ rest) = entryOf? ls := by
  obtain ⟨others, hothers⟩ := hrest
  have hkept : ∀ line ∈ ls, (!line.isEmpty) = true := by
    intro line hmem
    simpa using (h line hmem).1
  rw [leading?, splitOn_unlines_append, flatMap_splitOn_of_isLine h, hothers,
    List.takeWhile_append_of_pos hkept, List.takeWhile_cons_of_neg (by simp), List.append_nil]

/-- **What follows an entry is read as if it stood alone.** -/
theorem read?_unlines_append (hne : ls ≠ []) (h : ∀ line ∈ ls, IsLine line)
    (hrest : IsApart rest) :
    read? (unlines ls ++ rest) =
      (entryOf? ls).bind fun first => (read? rest).map (first :: ·) := by
  obtain ⟨others, hothers⟩ := hrest
  have hfull : [] ∉ ls := fun hmem => (h [] hmem).1 rfl
  have halone : [] :: others = [] ++ [] :: others := rfl
  rw [read?, read?, splitOn_unlines_append, flatMap_splitOn_of_isLine h, hothers,
    List.splitOn_append_cons_self_of_not_mem hfull, halone,
    List.splitOn_append_cons_self_of_not_mem List.not_mem_nil,
    List.filter_cons_of_pos (by simpa using hne), List.filter_cons_of_neg (by simp),
    List.mapM_cons]
  generalize (List.filter _ (others.splitOn [])).mapM entryOf? = later
  cases later <;> rfl

end Leading

/-! ### The lines of the header -/

/-- The line of a header field. -/
def fieldLine (field : String × Bytes) : Bytes :=
  inQuotes (utf8 field.1 ++ utf8 ": " ++ field.2 ++ utf8 "\\n")

/-- The text of a header field. -/
def fieldText (field : String × Bytes) : Bytes :=
  utf8 field.1 ++ utf8 ": " ++ field.2 ++ [Byte.lineFeed]

/-- The header starts with two empty texts, and then has one line for each field. -/
theorem headerLines_eq (h : CatalogHeader) :
    headerLines h =
      utf8 "msgid \"\"" :: utf8 "msgstr \"\"" :: (headerFields h).map fieldLine := by
  have hmsgid : headed (utf8 "msgid ") (textLines []) = [utf8 "msgid \"\""] := by decide
  have hmsgstr : utf8 "msgstr " ++ inQuotes [] = utf8 "msgstr \"\"" := by decide
  rw [headerLines, hmsgid, headerStrings, List.map_cons, headed, hmsgstr, List.map_map]
  rfl

/-- An entry with nothing but strings after its two names. -/
theorem entryOf?_opening (ls : List Bytes) :
    entryOf? (utf8 "msgid \"\"" :: utf8 "msgstr \"\"" :: ls) =
      if (strings ls).2.isEmpty then some ⟨[], [], (strings ls).1⟩ else none := by
  rfl

/-- What the header is written with is short of the backslashes that it takes by one for each
special byte in its values. -/
theorem cost_flatMap_fieldText {fields : List (String × Bytes)}
    (h : ∀ field ∈ fields, IsPlain (utf8 field.1 ++ utf8 ": ")) :
    cost (fields.flatMap fieldText) =
      (fields.map fieldLine).flatten.count Byte.backslash +
        (fields.flatMap Prod.snd).countP isSpecial := by
  induction fields with
  | nil => rfl
  | cons field others ih =>
    obtain ⟨hname, hothers⟩ := List.forall_mem_cons.mp h
    have hone : cost (fieldText field) =
        (fieldLine field).count Byte.backslash + field.2.countP isSpecial := by
      have hplain := isPlain_iff_countP.mp hname
      have hback : (utf8 field.1 ++ utf8 ": ").count Byte.backslash = 0 :=
        List.count_eq_zero.mpr hname.2.2
      have hend : (utf8 "\\n").count Byte.backslash = 1 := by decide
      have hfeed : cost [Byte.lineFeed] = 1 := by decide
      have hclose : [Byte.doubleQuote].count Byte.backslash = 0 := by decide
      rw [fieldText, cost_append, cost_append, hfeed, cost, cost, hplain, hback, fieldLine,
        inQuotes, List.count_cons_of_ne (by decide), List.count_append, List.count_append,
        List.count_append, hback, hend, hclose]
      omega
    rw [List.flatMap_cons, cost_append, hone, ih hothers, List.map_cons, List.flatten_cons,
      List.count_append, List.flatMap_cons, List.countP_append]
    omega

/-- **Lines from the start of the header spell its fields only if all values are plain.** Otherwise
the quoted texts have no more backslashes than the header, and spell a text that takes more. -/
theorem isPlain_of_strings {h : CatalogHeader} {ls more : List Bytes}
    (hlines : ls ++ more =
      ((headerFields h).map fieldLine).flatMap (·.splitOn Byte.lineFeed))
    (hread : (strings ls).1 = headerText h) : ∀ field ∈ headerFields h, IsPlain field.2 := by
  have hbytes : ls.flatten ++ more.flatten =
      ((headerFields h).map fieldLine).flatten.filter (· ≠ Byte.lineFeed) := by
    rw [← List.flatten_append, hlines, flatten_flatMap_splitOn]
  have hfeeds : ∀ line ∈ ls, Byte.lineFeed ∉ line := by
    intro line hline hmem
    have hin : Byte.lineFeed ∈ ls.flatten ++ more.flatten :=
      List.mem_append_left _ (List.mem_flatten_of_mem hline hmem)
    rw [hbytes] at hin
    simpa using (List.mem_filter.mp hin).2
  have hhave : ls.flatten.count Byte.backslash + more.flatten.count Byte.backslash =
      ((headerFields h).map fieldLine).flatten.count Byte.backslash := by
    rw [← List.count_append, hbytes, List.count_filter (by decide)]
  have hneed : cost (headerText h) =
      ((headerFields h).map fieldLine).flatten.count Byte.backslash +
        ((headerFields h).flatMap Prod.snd).countP isSpecial :=
    cost_flatMap_fieldText (isPlain_headerName h)
  have hspelled := cost_le_of_strings hfeeds
  rw [hread] at hspelled
  have hnone : ((headerFields h).flatMap Prod.snd).countP isSpecial = 0 := by omega
  intro field hfield
  rw [isPlain_iff_countP, List.countP_eq_zero]
  intro b hb
  exact List.countP_eq_zero.mp hnone b (List.mem_flatMap_of_mem hfield hb)

/-- The lines up to an empty one are among those before it. -/
theorem takeWhile_append_prefix (before after : List Bytes) :
    ((before ++ [] :: after).takeWhile fun line => !line.isEmpty) <+: before := by
  have hstop : (([] :: after).takeWhile fun line : Bytes => !line.isEmpty) = [] :=
    List.takeWhile_cons_of_neg (by simp)
  rw [List.takeWhile_append, hstop]
  split
  · simp
  · exact List.takeWhile_prefix _

/-- A header that is read back as it was has plain values only. -/
theorem isPlain_of_leading? {h : CatalogHeader} {rest : Bytes} (hrest : IsApart rest)
    (hread : leading? (header h ++ rest) = some ⟨[], [], headerText h⟩) :
    ∀ field ∈ headerFields h, IsPlain field.2 := by
  obtain ⟨others, hothers⟩ := hrest
  obtain ⟨more, hmore⟩ := takeWhile_append_prefix
    (((headerFields h).map fieldLine).flatMap (·.splitOn Byte.lineFeed)) others
  refine isPlain_of_strings hmore ?_
  have hlines : leading? (header h ++ rest) =
      entryOf? (utf8 "msgid \"\"" :: utf8 "msgstr \"\"" ::
        (((headerFields h).map fieldLine).flatMap (·.splitOn Byte.lineFeed) ++
          [] :: others).takeWhile fun line => !line.isEmpty) := by
    rw [leading?, header_eq_unlines, splitOn_unlines_append, hothers, headerLines_eq]
    rfl
  rw [hlines, entryOf?_opening] at hread
  split at hread
  · exact (Entry.mk.inj (Option.some.inj hread)).2.2
  · simp at hread

end Po

/-- **The header is read back exactly when its values are plain.** The entry at the start of a
catalog's text has an empty msgid and the fields of the header, one on each line, exactly when no
value holds a line feed, a quote or a backslash. The messages are then read as if they stood
alone. -/
theorem Po.header_read_iff (catalog : Catalog) :
    (Po.leading? catalog.text = some ⟨[], [], Po.headerText catalog.header⟩ ↔
      ∀ field ∈ Po.headerFields catalog.header, Po.IsPlain field.2) ∧
    ((∀ field ∈ Po.headerFields catalog.header, Po.IsPlain field.2) →
      Po.read? catalog.text =
        (Po.read? (catalog.messages.flatMap fun m => utf8 "\n" ++ Po.entry m)).map
          (⟨[], [], Po.headerText catalog.header⟩ :: ·)) := by
  have happart := Po.isApart_messages catalog.messages
  have hne : Po.headerLines catalog.header ≠ [] := List.cons_ne_nil _ _
  refine ⟨⟨Po.isPlain_of_leading? happart, fun hplain => ?_⟩, fun hplain => ?_⟩
  · rw [Catalog.text, Po.header_eq_unlines,
      Po.leading?_unlines_append (Po.isLine_headerLines hplain) happart,
      Po.entryOf?_headerLines hplain]
  · rw [Catalog.text, Po.header_eq_unlines,
      Po.read?_unlines_append hne (Po.isLine_headerLines hplain) happart,
      Po.entryOf?_headerLines hplain]
    rfl

/-- A catalog with one message, and the given version in its header. -/
def Po.versioned (version : String) : Catalog :=
  (Catalog.offerAll [⟨utf8 "x", utf8 "a.py", 1⟩]
    { header := { Settings.default.catalog with projectIdVersion := utf8 version } }).2

/-- A quote, a backslash or a line feed in one value of the header, and its fields are not read
back; with a quote, the message after it is not either. -/
theorem Po.header_unread_special :
    (∀ version ∈ ["a\"b", "a\\b", "a\nb"], Po.leading? (Po.versioned version).text ≠
      some ⟨[], [], Po.headerText (Po.versioned version).header⟩) ∧
    Po.read? (Po.versioned "a\"b").text = none ∧
    Po.read? ((Po.versioned "a\"b").messages.flatMap fun m => utf8 "\n" ++ Po.entry m) =
      some [⟨[⟨utf8 "a.py", 1⟩], utf8 "x", []⟩] := by
  decide +kernel

end DocHarvest
