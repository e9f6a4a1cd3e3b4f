import Mathlib.Data.List.Infix
import DocHarvest.Proofs.Source.DocLineEnds
import DocHarvest.Proofs.Source.Documentation

/-!
# Documentation That Is Written and Read Back

Texts can be written as a source that holds nothing but documentation: each between three double
quotes, on lines of its own. A long line may be wrapped by continuations, which fall anywhere in the
text, next to quotes and line feeds as well. What is extracted from such a source is the texts, each
on the line where its quotes stand.

A text is written as it is, so it must not hold what a literal gives a meaning to: no backslash, and
no quotes that would close the literal before its end. Everything else may stand in it.

## Main definitions

* `Writable` — a text that can stand between documentation quotes as it is.
* `Page`, `Page.wrapped` — a text cut into chunks, and the chunks with continuations between them.
* `docSource` — a source that holds the pages.

## Main results

* `Page.joinLines_wrapped` — a continuation leaves no trace in the text.
* `Page.closesFirst_pieces` — the quotes after a page are the first that close it.
* `docStrings_docSource` — what was written is extracted.
-/

namespace DocHarvest.Source

/-- A text that can stand between documentation quotes as it is. -/
structure Writable (text : Bytes) : Prop where
  unescaped : Byte.backslash ∉ text
  unclosed : ¬ docQuotes <:+: text
  ending : text.getLast? ≠ some Byte.doubleQuote

instance (text : Bytes) : Decidable (Writable text) :=
  decidable_of_iff (Byte.backslash ∉ text ∧ ¬ docQuotes <:+: text ∧
      text.getLast? ≠ some Byte.doubleQuote)
    ⟨fun ⟨hback, hquotes, hlast⟩ => ⟨hback, hquotes, hlast⟩,
      fun ⟨hback, hquotes, hlast⟩ => ⟨hback, hquotes, hlast⟩⟩

/-- A text cut into chunks, some of which may be empty. -/
abbrev Page := List Bytes

namespace Page

/-- The text of a page. -/
def text (page : Page) : Bytes :=
  page.flatten

/-- The chunks of a page with a continuation between any two of them. -/
def wrapped (page : Page) : Bytes :=
  Bytes.join continuation page

/-- A page as pieces of a literal: its bytes and the protected line feeds between its chunks. -/
def pieces : Page → List Literal.Piece
  | [] => []
  | [chunk] => chunk.map .plain
  | chunk :: others => chunk.map .plain ++ .escaped Byte.lineFeed :: pieces others

end Page

/-- A source that holds each page between documentation quotes, with a line feed after it. -/
def docSource (pages : List Page) : Bytes :=
  pages.flatMap fun page => docQuotes ++ page.wrapped ++ docQuotes ++ [Byte.lineFeed]

/-! ### Pages as bodies of literals -/

namespace Literal

/-- The bytes of a body that no backslash protects. -/
def plains (body : List Piece) : Bytes :=
  body.filterMap fun
    | .plain b => some b
    | _ => none

/-- Bare bytes come one after another. -/
theorem plains_append (body body' : List Piece) :
    plains (body ++ body') = plains body ++ plains body' :=
  List.filterMap_append

/-- Bytes as bare pieces are these bytes. -/
theorem plains_map_plain (s : Bytes) : plains (s.map .plain) = s := by
  rw [plains, List.filterMap_map]
  exact List.filterMap_some

/-- Pieces are written one after another. -/
theorem written_append (body body' : List Piece) :
    written (body ++ body') = written body ++ written body' :=
  List.flatMap_append

/-- Bare pieces are written as their bytes. -/
theorem written_map_plain (s : Bytes) : written (s.map .plain) = s := by
  rw [written, List.flatMap_map]
  exact List.flatMap_singleton' s

end Literal

namespace Page

/-- The pieces of a page are written as its text with the breaks. -/
theorem written_pieces (page : Page) : Literal.written page.pieces = page.wrapped := by
  rw [wrapped]
  fun_induction pieces page with
  | case1 => rfl
  | case2 chunk => exact Literal.written_map_plain chunk
  | case3 chunk others hne ih =>
    rw [Bytes.join.eq_3 _ _ _ hne, Literal.written_append, Literal.written_map_plain,
      Literal.written_cons, ih, List.append_assoc]
    rfl

/-- The bytes of a page that no backslash protects are its text. -/
theorem plains_pieces (page : Page) : Literal.plains page.pieces = page.text := by
  rw [text]
  fun_induction pieces page with
  | case1 => rfl
  | case2 chunk => rw [Literal.plains_map_plain, List.flatten_singleton]
  | case3 chunk others hne ih =>
    rw [Literal.plains_append, Literal.plains_map_plain, List.flatten_cons, ← ih]
    rfl

/-- Only line feeds are protected in a page. -/
theorem eq_lineFeed_of_mem_pieces {page : Page} {b : UInt8} (h : .escaped b ∈ page.pieces) :
    b = Byte.lineFeed := by
  fun_induction pieces page with
  | case1 => simp at h
  | case2 chunk => simp at h
  | case3 chunk others hne ih =>
    rcases List.mem_append.mp h with hmem | hmem
    · simp at hmem
    · rcases List.mem_cons.mp hmem with heq | hmem
      · exact Literal.Piece.escaped.inj heq
      · exact ih hmem

/-- A page is read in its pieces. -/
theorem reads_pieces {page : Page} (h : Writable page.text) : Literal.Reads true page.pieces := by
  refine ⟨fun hmem => h.unescaped ?_, fun hinfix => ?_, by simp⟩
  · rw [← plains_pieces, Literal.plains, List.mem_filterMap]
    exact ⟨_, hmem, rfl⟩
  · have hmem : .escaped Byte.carriageReturn ∈ page.pieces := hinfix.subset (by simp)
    exact absurd (eq_lineFeed_of_mem_pieces hmem) (by decide)

end Page

/-- Two more quotes after a text that does not end with one close nothing. -/
theorem Writable.unclosed_append {text : Bytes} (h : Writable text) :
    ¬ docQuotes <:+: text ++ [Byte.doubleQuote, Byte.doubleQuote] := by
  have hlast : ¬ [Byte.doubleQuote] <:+ text := by
    rintro ⟨before, rfl⟩
    exact h.ending (by simp)
  intro hinfix
  rw [List.append_cons, List.infix_concat_iff, List.infix_concat_iff] at hinfix
  rcases hinfix with hboth | hone | hinfix
  · rw [List.append_assoc] at hboth
    have hone : [Byte.doubleQuote] ++ [Byte.doubleQuote, Byte.doubleQuote] <:+
        text ++ [Byte.doubleQuote, Byte.doubleQuote] := hboth
    exact hlast (List.suffix_append_self_iff.mp hone)
  · have htwo : [Byte.doubleQuote, Byte.doubleQuote] ++ [Byte.doubleQuote] <:+
        text ++ [Byte.doubleQuote] := hone
    exact hlast ((List.suffix_cons _ _).trans (List.suffix_append_self_iff.mp htwo))
  · exact h.unclosed hinfix

/-- **The quotes after a page are the first that close it.** -/
theorem Page.closesFirst_pieces {page : Page} (h : Writable page.text) :
    Literal.ClosesFirst Byte.doubleQuote true page.pieces := by
  intro hinfix
  have hplain := hinfix.filterMap fun
    | .plain b => some b
    | _ => none
  rw [← Literal.plains, ← Literal.plains, Literal.plains_append, Page.plains_pieces] at hplain
  exact h.unclosed_append hplain

/-! ### Joining the lines of a page -/

/-- Bytes before the first backslash stay. -/
theorem joinLines_append_of_not_mem {s : Bytes} (h : Byte.backslash ∉ s) (rest : Bytes) :
    joinLines (s ++ rest) = s ++ joinLines rest := by
  induction s with
  | nil => rfl
  | cons b s ih =>
    rw [List.mem_cons, not_or] at h
    rw [List.cons_append, joinLines_plain _ (Ne.symm h.1), ih h.2, List.cons_append]

/-- **A continuation leaves no trace in the text.** -/
theorem Page.joinLines_wrapped {page : Page} (h : Byte.backslash ∉ page.text) :
    joinLines page.wrapped = page.text := by
  rw [text] at h ⊢
  rw [wrapped]
  fun_induction Bytes.join continuation page with
  | case1 => rfl
  | case2 chunk =>
    have hchunk : Byte.backslash ∉ chunk := by simpa using h
    have hjoin := joinLines_append_of_not_mem hchunk []
    rw [List.append_nil] at hjoin
    rw [hjoin, joinLines, List.append_nil, List.flatten_singleton]
  | case3 chunk others hne ih =>
    rw [List.flatten_cons, List.mem_append, not_or] at h
    rw [List.append_assoc, joinLines_append_of_not_mem h.1, List.flatten_cons, ← ih h.2]
    rfl

/-! ### A source of pages -/

/-- The literal of a page. -/
def Page.literal (page : Page) : Literal where
  mark := []
  quote := Byte.doubleQuote
  long := true
  body := page.pieces

/-- The elements of a source of pages: the literal of each page and the line feed after it. -/
def pageElements (pages : List Page) : List Element :=
  pages.flatMap fun page => [.string page.literal, .blank Byte.lineFeed]

/-- The literal of a page is its text with the breaks, between quotes. -/
theorem Page.text_literal (page : Page) :
    page.literal.text = docQuotes ++ page.wrapped ++ docQuotes := by
  rw [Literal.text, ← written_pieces]
  rfl

/-- The first page comes first, on lines of its own. -/
theorem docSource_cons (page : Page) (pages : List Page) :
    docSource (page :: pages) = page.literal.text ++ ([Byte.lineFeed] ++ docSource pages) := by
  rw [Page.text_literal, ← List.append_assoc]
  rfl

/-- The lines of a page and of those after it. -/
theorem lineFeeds_docSource_cons (page : Page) (pages : List Page) :
    Bytes.lineFeeds (docSource (page :: pages)) =
      Bytes.lineFeeds page.literal.text + 1 + Bytes.lineFeeds (docSource pages) := by
  rw [docSource_cons, Bytes.lineFeeds_append, Bytes.lineFeeds_append, ← Nat.add_assoc]
  rfl

/-- The literal of a page is well formed before any text. -/
theorem Page.fits_literal {page : Page} (h : Writable page.text) (rest : Bytes) :
    page.literal.Fits rest where
  opens := ⟨.inl rfl, rfl, fun hshort => by cases hshort⟩
  reads := reads_pieces h
  closesFirst := closesFirst_pieces h

/-- A source of pages splits into their literals. -/
theorem splits_docSource {pages : List Page} (h : ∀ page ∈ pages, Writable page.text) :
    Splits (docSource pages) (pageElements pages) := by
  induction pages with
  | nil => exact .stop []
  | cons page pages ih =>
    obtain ⟨hpage, hpages⟩ := List.forall_mem_cons.mp h
    have hliteral : Element.Fits (.string page.literal) ([Byte.lineFeed] ++ docSource pages) :=
      page.fits_literal hpage _
    have hblank : Element.Fits (.blank Byte.lineFeed) (docSource pages) := rfl
    rw [docSource_cons]
    exact .step hliteral (.step hblank (ih hpages))

/-- Pages open no brackets. -/
theorem nesting_pageElements (pages : List Page) : nesting (pageElements pages) = 0 := by
  rw [nesting]
  induction pages with
  | nil => rfl
  | cons page pages ih => exact ih

/-- The documentation of a source of pages is their texts, each so many lines down as line feeds
were written before it. -/
theorem documented_pageElements (name : Bytes) {pages : List Page}
    (h : ∀ page ∈ pages, Writable page.text) (line : Nat) :
    documented name line (pageElements pages) =
      pages.mapIdx fun i page =>
        ⟨page.text, name, (line + Bytes.lineFeeds (docSource (pages.take i)) : Nat)⟩ := by
  induction pages generalizing line with
  | nil => rfl
  | cons page pages ih =>
    obtain ⟨hpage, hpages⟩ := List.forall_mem_cons.mp h
    have hpieces : (Element.string page.literal).docPieces? = some page.pieces := by
      rw [Element.docPieces?]
      exact if_pos ⟨rfl, rfl, rfl⟩
    have hfirst : documented name line (pageElements (page :: pages)) =
        ⟨joinLines (Literal.written page.pieces), name, line⟩ ::
          documented name (line + Bytes.lineFeeds page.literal.text + 1) (pageElements pages) := by
      rw [pageElements, List.flatMap_cons, List.cons_append, documented, hpieces]
      rfl
    have hlater : ∀ i, line + Bytes.lineFeeds page.literal.text + 1 +
        Bytes.lineFeeds (docSource (pages.take i)) =
          line + Bytes.lineFeeds (docSource ((page :: pages).take (i + 1))) := by
      intro i
      rw [List.take_succ_cons, lineFeeds_docSource_cons]
      omega
    rw [hfirst, Page.written_pieces, Page.joinLines_wrapped hpage.unescaped, ih hpages,
      List.mapIdx_cons]
    simp only [hlater]
    rfl

/-- **What was written is extracted.** Texts that need no escaping are written one after another,
each between three double quotes and with a line feed after it, and wrapped by continuations in any
places. Such a source is scanned to its end, and its documentation strings are the texts in their
order, each on the line that the line feeds before it lead to. -/
theorem docStrings_docSource (name : Bytes) {pages : List Page}
    (h : ∀ page ∈ pages, Writable page.text) :
    (scan ⟨name, docSource pages, .complete⟩).2 =
      .ok ⟨.endOfFile, [], 1 + Bytes.lineFeeds (docSource pages)⟩ ∧
    docStrings ⟨name, docSource pages, .complete⟩ =
      (pages.mapIdx fun i page =>
        ⟨page.text, name, (1 + Bytes.lineFeeds (docSource (pages.take i)) : Nat)⟩, none) := by
  have hsplits := splits_docSource h
  have hend : (scan ⟨name, docSource pages, .complete⟩).2 =
      .ok ⟨.endOfFile, [], 1 + Bytes.lineFeeds (docSource pages)⟩ := by
    rw [scan_eq_of_splits name hsplits, closingResult, if_pos (nesting_pageElements pages)]
  have hdocs : (docStrings ⟨name, docSource pages, .complete⟩).1 =
      documented name 1 (pageElements pages) :=
    docStrings_fst_eq_documented hsplits (.inl rfl)
  refine ⟨hend, Prod.ext ?_ ?_⟩
  · rw [hdocs, documented_pageElements name h]
  · rw [docStrings_eq, hend]
    rfl

/-- Pages with continuations between quotes, before a line feed, and around nothing. -/
def awkwardPages : List Page :=
  [[utf8 "\"\"(", utf8 "\"r'", utf8 "\n#\r"], [[], [], []], [utf8 "\"", utf8 "\"x"]]

/-- Pages with quotes, brackets, a carriage return and breaks next to each other. -/
theorem docStrings_docSource_awkward :
    (∀ page ∈ awkwardPages, Writable page.text) ∧
    docSource awkwardPages =
      utf8 ("\"\"\"\"\"(\\\n\"r'\\\n\n#\r\"\"\"\n" ++ "\"\"\"\\\n\\\n\"\"\"\n" ++
        "\"\"\"\"\\\n\"x\"\"\"\n") ∧
    docStrings ⟨utf8 "a.py", docSource awkwardPages, .complete⟩ =
      ([⟨utf8 "\"\"(\"r'\n#\r", utf8 "a.py", 1⟩, ⟨[], utf8 "a.py", 5⟩,
        ⟨utf8 "\"\"x", utf8 "a.py", 8⟩], none) := by
  have hwritable : ∀ page ∈ awkwardPages, Writable page.text := by decide
  exact ⟨hwritable, by decide, (docStrings_docSource (utf8 "a.py") hwritable).2.trans (by decide)⟩

end DocHarvest.Source
