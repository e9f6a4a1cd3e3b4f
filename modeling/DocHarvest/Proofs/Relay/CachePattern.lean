import DocHarvest.Proofs.Bytes.Ascii
import DocHarvest.Proofs.Relay.Stream
import Mathlib.Computability.Language

/-!
# Lines that Announce a Cache

Of a line that announces the loading of a cache only the name of the cache is passed on. Such lines
are the texts of a pattern, `Loading .*/([^/]+)\.cache\.\.\.`, in which `.` is any character but a
line feed; the name is what the group in it captures. The pattern leaves a choice of where to cut at
every slash, and of where to end the name wherever the ending occurs. There is no real choice: a
name holds no slash, so the slash before it is the last one, and the ending is the last one too.

The pattern is read over characters and the line is cut at bytes. Both come to the same, because
every byte that the cuts are made at is a character of its own.

## Main definitions

* `Relay.CacheLine` — a line is cut into the parts of an announcement.
* `Relay.oneOf`, `Relay.Captures` — the pattern, as languages of characters.

## Main results

* `Relay.CacheLine.unique`, `Relay.CacheLine.last_slash` — a line is cut in one way.
* `Relay.exists_cacheLine_iff_captures` — the cuts are the matches of the pattern.
* `Relay.line_cache_iff` — what becomes of lines that announce a cache, or start as if they did.
-/

open scoped Computability

namespace DocHarvest.Relay

/-! ### The parts of an announcement -/

/-- **A line is cut into the parts of an announcement**: a word, directories without a line feed, a
slash, a name without a slash, and an ending. -/
structure CacheLine (body directories name : Bytes) : Prop where
  eq_append : body = utf8 "Loading " ++ directories ++ utf8 "/" ++ name ++ utf8 ".cache..."
  oneLine : Byte.lineFeed ∉ directories
  named : name ≠ []
  noSlash : Byte.slash ∉ name

/-- A text announces a cache when it is cut so, less the line feed at its end. -/
theorem announces_iff {text name : Bytes} :
    Announces text name ↔ ∃ directories, CacheLine (withoutLineFeed text) directories name := by
  constructor
  · rintro ⟨body, directories, hbody, heq, hline, hname, hslash⟩
    rw [body_iff.mp hbody]
    exact ⟨directories, heq, hline, hname, hslash⟩
  · rintro ⟨directories, heq, hline, hname, hslash⟩
    exact ⟨_, directories, body_iff.mpr rfl, heq, hline, hname, hslash⟩

namespace CacheLine

variable {body directories directories' name name' : Bytes}

/-- The slash of an announcement is the last one of the line. -/
theorem splitLastSlash?_eq (h : CacheLine body directories name) :
    splitLastSlash? body = some (utf8 "Loading " ++ directories, name ++ utf8 ".cache...") := by
  refine splitLastSlash?_eq_some_iff.mpr ⟨?_, ?_⟩
  · rw [h.eq_append, show utf8 "/" = [Byte.slash] from rfl]
    simp only [List.append_assoc, List.cons_append, List.nil_append]
  · rw [List.mem_append, not_or]
    exact ⟨h.noSlash, slash_not_mem_ending⟩

/-- **A line is cut at its last slash**: no other slash has none after it. -/
theorem last_slash (h : CacheLine body directories name) {front back : Bytes}
    (hcut : body = front ++ Byte.slash :: back) (hback : Byte.slash ∉ back) :
    front = utf8 "Loading " ++ directories ∧ back = name ++ utf8 ".cache..." := by
  have hsplit := splitLastSlash?_eq_some_iff.mpr ⟨hcut, hback⟩
  rwa [h.splitLastSlash?_eq, Option.some.injEq, Prod.mk.injEq, eq_comm,
    @eq_comm _ (name ++ _)] at hsplit

/-- **A line is cut in one way.** -/
theorem unique (h : CacheLine body directories name) (h' : CacheLine body directories' name') :
    directories' = directories ∧ name' = name := by
  have hsplit := h'.splitLastSlash?_eq
  rw [h.splitLastSlash?_eq, Option.some.injEq, Prod.mk.injEq] at hsplit
  exact ⟨(List.append_cancel_left hsplit.1).symm, (List.append_cancel_right hsplit.2).symm⟩

/-- The parts of a text are texts. -/
theorem isText (h : CacheLine body directories name) (hbody : Utf8.IsText body) :
    Utf8.IsText directories ∧ Utf8.IsText name := by
  have hcuts : body = utf8 "Loading" ++ Byte.space :: (directories ++ Byte.slash ::
      (name ++ 46 :: utf8 "cache...")) := by
    rw [h.eq_append, show utf8 "Loading " = utf8 "Loading" ++ [Byte.space] from rfl,
      show utf8 "/" = [Byte.slash] from rfl,
      show utf8 ".cache..." = 46 :: utf8 "cache..." from rfl]
    simp only [List.append_assoc, List.cons_append, List.nil_append]
  rw [hcuts, Utf8.isText_append_cons_iff (by decide), Utf8.isText_append_cons_iff (by decide),
    Utf8.isText_append_cons_iff (by decide)] at hbody
  exact ⟨hbody.2.1, hbody.2.2.1⟩

end CacheLine

/-! ### The pattern -/

/-- The texts of one character that has a property. -/
def oneOf (p : Char → Prop) : Language Char :=
  {cs | ∃ c, p c ∧ cs = [c]}

/-- What the pattern has before the name. -/
def beforeName : Language Char :=
  {"Loading ".toList} * (oneOf (· ≠ '\n'))∗ * {"/".toList}

/-- What the group of the pattern has: one or more characters other than a slash. -/
def cacheNames : Language Char :=
  oneOf (· ≠ '/') * (oneOf (· ≠ '/'))∗

/-- What the pattern has after the name. -/
def afterName : Language Char :=
  {".cache...".toList}

/-- **A text matches the pattern**, and its group captures a name. -/
def Captures (text name : List Char) : Prop :=
  name ∈ cacheNames ∧ ∃ before ∈ beforeName, ∃ after ∈ afterName, text = before ++ name ++ after

/-- Words of a class of characters. -/
theorem mem_kstar_oneOf {p : Char → Prop} {cs : List Char} :
    cs ∈ (oneOf p)∗ ↔ ∀ c ∈ cs, p c := by
  rw [Language.mem_kstar]
  constructor
  · rintro ⟨pieces, rfl, hpieces⟩ c hc
    obtain ⟨piece, hpiece, hmem⟩ := List.mem_flatten.mp hc
    obtain ⟨d, hd, rfl⟩ := hpieces piece hpiece
    rwa [List.mem_singleton.mp hmem]
  · intro hall
    refine ⟨cs.map fun c => [c], by rw [← List.flatMap_def, List.flatMap_singleton'], ?_⟩
    intro piece hpiece
    obtain ⟨c, hc, rfl⟩ := List.mem_map.mp hpiece
    exact ⟨c, hall c hc, rfl⟩

/-- The names of files: they are not empty and have no slash. -/
theorem mem_cacheNames {name : List Char} :
    name ∈ cacheNames ↔ name ≠ [] ∧ '/' ∉ name := by
  rw [cacheNames, Language.mem_mul]
  constructor
  · rintro ⟨_, ⟨c, hc, rfl⟩, others, hothers, rfl⟩
    rw [mem_kstar_oneOf] at hothers
    refine ⟨by simp, ?_⟩
    rw [List.singleton_append, List.mem_cons, not_or]
    exact ⟨hc.symm, fun hmem => hothers '/' hmem rfl⟩
  · rintro ⟨hne, hslash⟩
    obtain ⟨c, others, rfl⟩ := List.exists_cons_of_ne_nil hne
    rw [List.mem_cons, not_or] at hslash
    refine ⟨[c], ⟨c, Ne.symm hslash.1, rfl⟩, others, ?_, rfl⟩
    exact mem_kstar_oneOf.mpr fun d hd heq => hslash.2 (heq ▸ hd)

/-- What stands before the name of a file. -/
theorem mem_beforeName {before : List Char} :
    before ∈ beforeName ↔
      ∃ directories, '\n' ∉ directories ∧
        before = "Loading ".toList ++ directories ++ "/".toList := by
  rw [beforeName, Language.mem_mul]
  constructor
  · rintro ⟨_, hfront, _, rfl, rfl⟩
    obtain ⟨_, rfl, directories, hdirectories, rfl⟩ := Language.mem_mul.mp hfront
    exact ⟨directories, fun hmem => mem_kstar_oneOf.mp hdirectories '\n' hmem rfl, rfl⟩
  · rintro ⟨directories, hline, rfl⟩
    refine ⟨_, Language.mem_mul.mpr ⟨_, rfl, directories, ?_, rfl⟩, _, rfl, rfl⟩
    exact mem_kstar_oneOf.mpr fun c hc heq => hline (heq ▸ hc)

/-- **The cuts of a line are the matches of the pattern.** -/
theorem exists_cacheLine_iff_captures {cs : List Char} {name : Bytes} :
    (∃ directories, CacheLine (utf8Chars cs) directories name) ↔
      ∃ ns, name = utf8Chars ns ∧ Captures cs ns := by
  have hline : ∀ ds : List Char, Byte.lineFeed ∈ utf8Chars ds ↔ '\n' ∈ ds :=
    fun ds => Utf8.mem_utf8Chars_iff (by decide)
  have hslash : ∀ ns : List Char, Byte.slash ∈ utf8Chars ns ↔ '/' ∈ ns :=
    fun ns => Utf8.mem_utf8Chars_iff (by decide)
  constructor
  · rintro ⟨directories, h⟩
    obtain ⟨⟨ds, rfl⟩, ⟨ns, rfl⟩⟩ := h.isText ⟨cs, rfl⟩
    refine ⟨ns, rfl, mem_cacheNames.mpr ⟨?_, ?_⟩, _, mem_beforeName.mpr ⟨ds, ?_, rfl⟩, _, rfl, ?_⟩
    · rintro rfl
      exact h.named rfl
    · exact fun hmem => h.noSlash ((hslash ns).mpr hmem)
    · exact fun hmem => h.oneLine ((hline ds).mpr hmem)
    · apply Utf8.utf8Chars_injective
      rw [h.eq_append]
      simp only [utf8, utf8Chars_append]
  · rintro ⟨ns, rfl, hname, _, hbefore, _, rfl, rfl⟩
    obtain ⟨hne, hnoSlash⟩ := mem_cacheNames.mp hname
    obtain ⟨ds, hdirectories, rfl⟩ := mem_beforeName.mp hbefore
    refine ⟨utf8Chars ds, ?_, ?_, ?_, ?_⟩
    · simp only [utf8, utf8Chars_append]
    · exact fun hmem => hdirectories ((hline ds).mp hmem)
    · exact fun hnil => hne (Utf8.utf8Chars_injective hnil)
    · exact fun hmem => hnoSlash ((hslash ns).mp hmem)

/-! ### Lines -/

/-- A line stands for a text. -/
theorem isText_decodeLine (line : Bytes) : Utf8.IsText (decodeLine line) := by
  have hdecodes : Decodes line (decodeLine line) := decodes_iff.mpr rfl
  generalize decodeLine line = text at hdecodes
  cases hdecodes with
  | asIs htext => exact htext
  | latin1 => exact ⟨_, rfl⟩

/-- A text is one still without the line feed at its end. -/
theorem isText_withoutLineFeed {text : Bytes} (h : Utf8.IsText text) :
    Utf8.IsText (withoutLineFeed text) := by
  have hbody : Body text (withoutLineFeed text) := body_iff.mpr rfl
  generalize withoutLineFeed text = body at hbody
  cases hbody with
  | ended => exact ((Utf8.isText_append_cons_iff (by decide)).mp h).1
  | unended => exact h

/-- What starts a line starts it without the line feed at its end. -/
theorem prefix_of_prefix_withoutLineFeed {start text : Bytes} (h : start <+: withoutLineFeed text) :
    start <+: text := by
  have hbody : Body text (withoutLineFeed text) := body_iff.mpr rfl
  generalize withoutLineFeed text = body at hbody h
  cases hbody with
  | ended => exact h.trans (List.prefix_append _ _)
  | unended => exact h

/-- A name is found exactly in the lines of the pattern. -/
theorem cacheName?_isSome_iff {text : Bytes} :
    (cacheName? text).isSome ↔
      ∃ directories name, CacheLine (withoutLineFeed text) directories name := by
  rw [Option.isSome_iff_exists, exists_comm]
  exact exists_congr fun name => cacheName?_eq_some_iff.trans announces_iff

/-- **What becomes of lines that announce a cache.** The name of a cache is looked for in the text
of a line, less one line feed at its end. It is found exactly when that text is cut into the parts of
an announcement, which is to say that it matches the pattern and the group captures the name. There
is one way to cut it, at its last slash. The name is then all that is passed on, on a line of its
own; and nothing is passed on of any other line that starts like an announcement. -/
theorem line_cache_iff (raw : Bytes) (writer : Writer) :
    let body := withoutLineFeed (decodeLine raw)
    ((cacheName? (decodeLine raw)).isSome ↔
      ∃ directories name, CacheLine body directories name) ∧
    (∀ name, (∃ directories, CacheLine body directories name) ↔
      ∃ cs ns, body = utf8Chars cs ∧ name = utf8Chars ns ∧ Captures cs ns) ∧
    (∀ directories name, CacheLine body directories name →
      (∀ directories' name', CacheLine body directories' name' →
        directories' = directories ∧ name' = name) ∧
      (∀ front back, body = front ++ Byte.slash :: back → Byte.slash ∉ back →
        front = utf8 "Loading " ++ directories ∧ back = name ++ utf8 ".cache...") ∧
      line false raw writer = writer.write (name ++ [Byte.lineFeed])) ∧
    (utf8 "Loading " <+: body → (¬ ∃ directories name, CacheLine body directories name) →
      line false raw writer = (.ok (), writer)) := by
  intro body
  obtain ⟨cs, hcs⟩ : Utf8.IsText body := isText_withoutLineFeed (isText_decodeLine raw)
  refine ⟨cacheName?_isSome_iff, fun name => ?_, fun directories name h => ?_,
    fun hstart hnone => ?_⟩
  · rw [← hcs, exists_cacheLine_iff_captures]
    constructor
    · rintro ⟨ns, hname, hcaptures⟩
      exact ⟨cs, ns, rfl, hname, hcaptures⟩
    · rintro ⟨cs', ns, heq, hname, hcaptures⟩
      obtain rfl := Utf8.utf8Chars_injective heq
      exact ⟨ns, hname, hcaptures⟩
  · refine ⟨fun _ _ => h.unique, fun _ _ => h.last_slash, ?_⟩
    have hemitted : emitted? false raw = some (name ++ [Byte.lineFeed]) :=
      emitted?_eq_iff.mpr ⟨_, decodes_iff.mpr rfl, .cache (announces_iff.mpr ⟨directories, h⟩)⟩
    rw [line, hemitted]
  · have hroutine : utf8 "Loading " ∈ routine := by simp [routine]
    have hdropped : PassesOn false (decodeLine raw) none := by
      refine .dropped hroutine (prefix_of_prefix_withoutLineFeed hstart) fun name h => ?_
      obtain ⟨directories, hline⟩ := announces_iff.mp h
      exact hnone ⟨directories, name, hline⟩
    have hemitted : emitted? false raw = none :=
      emitted?_eq_iff.mpr ⟨_, decodes_iff.mpr rfl, hdropped⟩
    rw [line, hemitted]

/-- A name may hold the ending, and directories may be empty. -/
example : cacheName? (utf8 "Loading //x.cache....cache...\n") = some (utf8 "x.cache...") := by
  decide

end DocHarvest.Relay
