import DocHarvest.Proofs.Source.Continuations
import DocHarvest.Proofs.Source.Failure

/-!
# What a Source Documents

Which literals of a source are documentation is a matter of the grammar: those that three double
quotes open, with no letters before them. The extractor never sees the grammar. It looks at the
first three bytes of a token and cuts three bytes off each end, and is right because of what tokens
are: a literal that starts with three double quotes has no letters before it, is long, and ends with
three quotes that are no part of its body.

Documentation strings are handed out one by one, and a reader may leave before the last. What it has
seen by then is the start of the whole sequence, and it sees the error only when it reads on past
the last string.

## Main definitions

* `Element.docPieces?` — the body of an element that is documentation.
* `documented` — the documentation strings among elements.
* `IsEnd` — where the elements of a source end.

## Main results

* `filterMap_placed` — the extractor finds the documentation among tokens.
* `docStrings_fst_eq_documented` — the documentation strings of a source are those of its elements.
* `handOut_eq` — what has been handed out after some scans.
* `docStrings_exact` — documentation, its quotes, and readers that leave early.
-/

namespace DocHarvest.Source

/-- The body of an element that is documentation: a literal with three double quotes around it and
no letters before them. -/
def Element.docPieces? : Element → Option (List Literal.Piece)
  | string literal =>
    if literal.mark = [] ∧ literal.quote = Byte.doubleQuote ∧ literal.long then some literal.body
    else none
  | _ => none

/-- The documentation strings among elements, the first of which starts on the given line. The text
is the body with continued lines joined. -/
def documented (name : Bytes) : Nat → List Element → List DocString
  | _, [] => []
  | line, e :: others =>
    match e.docPieces? with
    | none => documented name (line + Bytes.lineFeeds e.text) others
    | some body =>
      ⟨joinLines (Literal.written body), name, line⟩ ::
        documented name (line + Bytes.lineFeeds e.text) others

/-- The elements of a source end where nothing is left, or where a literal starts that nothing
closes. -/
def IsEnd (rest : Bytes) : Prop :=
  rest = [] ∨ ∃ what, Unclosed rest what

/-! ### The elements of a source -/

/-- A source has one run of elements up to their end. -/
theorem Cuts.eq_of_isEnd {s rest rest' : Bytes} {es es' : List Element} (h : Cuts s es rest)
    (hend : IsEnd rest) (h' : Cuts s es' rest') (hend' : IsEnd rest') : es = es' := by
  rcases hend with rfl | ⟨what, hopen⟩
  · rcases hend' with rfl | ⟨what', hopen'⟩
    · exact Splits.unique h h'
    · exact absurd h (hopen'.not_splits h')
  · rcases hend' with rfl | ⟨what', hopen'⟩
    · exact absurd h' (hopen.not_splits h)
    · exact (h.eq_of_unclosed hopen h' hopen').1

/-- Scanning the bytes of a source hands out the tokens among its elements. -/
theorem exists_scan_eq_placed (name s : Bytes) :
    ∃ es rest, Cuts s es rest ∧ IsEnd rest ∧ (scan ⟨name, s, .complete⟩).1 = placed 1 es := by
  rcases scan_cases name s with ⟨es, hsplits, hscan⟩ | ⟨es, rest, what, hcuts, hopen, hscan⟩
  · exact ⟨es, [], hsplits, .inl rfl, by rw [hscan]⟩
  · exact ⟨es, rest, hcuts, .inr ⟨what, hopen⟩, by rw [hscan]⟩

/-! ### Documentation among tokens -/

/-- **The extractor tells documentation by its first three bytes**, and cuts off its quotes and
nothing else. -/
theorem docText?_text {literal : Literal} {rest : Bytes} (h : literal.Fits rest) :
    docText? literal.text =
      (Element.string literal).docPieces?.map fun body => joinLines (Literal.written body) := by
  by_cases hq : docQuotes <+: literal.text
  · obtain ⟨hmark, hquote, hlong⟩ := h.eq_of_docQuotes hq
    have htext : literal.text = docQuotes ++ Literal.written literal.body ++ docQuotes := by
      rw [Literal.text, hmark, hquote, hlong]
      rfl
    have hdoc : (Element.string literal).docPieces? = some literal.body :=
      if_pos ⟨hmark, hquote, hlong⟩
    rw [hdoc, htext, docText?_eq_docBody?, docBody?_quoted]
    rfl
  · have hnot : ¬ (literal.mark = [] ∧ literal.quote = Byte.doubleQuote ∧ literal.long = true) := by
      rintro ⟨hmark, hquote, hlong⟩
      refine hq ⟨Literal.written literal.body ++ docQuotes, ?_⟩
      rw [Literal.text, hmark, hquote, hlong]
      exact (List.append_assoc docQuotes _ docQuotes).symm
    have hdoc : (Element.string literal).docPieces? = none := if_neg hnot
    have hnone : docText? literal.text = none := by
      rw [← List.isPrefixOf_iff_prefix] at hq
      simp [docText?, hq]
    rw [hdoc, hnone]
    rfl

/-- Elements that are no literals document nothing. -/
theorem Element.docPieces?_eq_none {e : Element} (h : e.kind? ≠ some .string) :
    e.docPieces? = none := by
  cases e with
  | string literal => exact absurd rfl h
  | _ => rfl

/-- **The extractor finds the documentation among tokens**, whatever stands between them. -/
theorem filterMap_placed (name : Bytes) {s rest : Bytes} {es : List Element} (h : Cuts s es rest)
    (line : Nat) :
    (placed line es).filterMap (docString? name) = documented name line es := by
  induction h generalizing line with
  | stop => rfl
  | @step e more others rest hfits hcuts ih =>
    by_cases hstring : e.kind? = some .string
    · obtain ⟨literal, rfl⟩ := Element.eq_string_of_kind? hstring
      have hdoc : docString? name ⟨.string, (Element.string literal).text, line⟩ =
          (Element.string literal).docPieces?.map fun body =>
            ⟨joinLines (Literal.written body), name, line⟩ := by
        rw [docString?, if_pos rfl, Element.text, docText?_text hfits, Option.map_map]
        rfl
      rw [placed, hstring, List.filterMap_cons, hdoc, ih, documented]
      cases (Element.string literal).docPieces? <;> rfl
    · rw [documented, Element.docPieces?_eq_none hstring, placed]
      cases hkind : e.kind? with
      | none => exact ih _
      | some kind =>
        have hne : kind ≠ .string := fun hk => hstring (hk ▸ hkind)
        exact (List.filterMap_cons_none (docString?_eq_none hne name)).trans (ih _)

/-- The bytes that were delivered decide which documentation is found, however their supply ends. -/
theorem docStrings_fst_eq_complete (name s : Bytes) (ending : Ending) :
    (docStrings ⟨name, s, ending⟩).1 = (docStrings ⟨name, s, .complete⟩).1 := by
  cases ending with
  | complete => rfl
  | failure cause =>
    obtain ⟨tokens, words, outcome, e, hwhole, hfailing, hwords, -⟩ := scan_of_failure name s cause
    have hnone : words.filterMap (docString? name) = [] :=
      List.filterMap_eq_nil_iff.mpr fun w hw => docString?_eq_none (hwords w hw) name
    rw [docStrings, docStrings, hwhole, hfailing]
    simp only [List.filterMap_append, hnone, List.append_nil]

/-- **The documentation strings of a source are those of its elements.** -/
theorem docStrings_fst_eq_documented {source : Source} {es : List Element} {rest : Bytes}
    (h : Cuts source.bytes es rest) (hend : IsEnd rest) :
    source.docStrings.1 = documented source.name 1 es := by
  obtain ⟨name, s, ending⟩ := source
  obtain ⟨es', rest', hcuts, hend', hscan⟩ := exists_scan_eq_placed name s
  obtain rfl := h.eq_of_isEnd hend hcuts hend'
  rw [docStrings_fst_eq_complete, docStrings, ← filterMap_placed name h, ← hscan]

/-! ### Readers that leave early -/

/-- The documentation strings of a source come from the tokens of its scan, and what ends it from
how the scan ends. -/
theorem docStrings_eq (source : Source) :
    source.docStrings =
      (source.scan.1.filterMap (docString? source.name), failure? source.scan.2) := by
  rw [docStrings]
  rcases source.scan with ⟨tokens, outcome⟩
  cases outcome <;> rfl

/-- **What has been handed out after some scans.** With fuel for every byte and for the end, it is
the start of what all scans together give, and the error is handed out only to a reader that has not
left before. -/
theorem handOut_eq (ending : Ending) (name : Bytes) (fuel limit : Nat) {s : Scanner}
    (h : s.error? = none) (hfuel : s.rest.length < fuel) :
    handOut ending name fuel limit s =
      (((scanFrom ending fuel s).1.filterMap (docString? name)).take limit,
        if ((scanFrom ending fuel s).1.filterMap (docString? name)).length < limit then
          failure? (scanFrom ending fuel s).2
        else none) := by
  induction fuel generalizing s limit with
  | zero => omega
  | succ fuel ih =>
    rcases limit with - | limit
    · simp [handOut]
    obtain ⟨gap, line, rest, hgap, hnext⟩ := s.next_cases ending h
    rcases hnext with ⟨e, kind, more, hkind, hfits, hrest, hnext⟩ | ⟨outcome, hhalts, hnext⟩
    · have hlt := hgap.length_lt hrest hfits
      have hkind' : kind ≠ .endOfFile := fun hk => e.kind?_ne_endOfFile (hk ▸ hkind)
      have hmore : more.length < fuel := by omega
      rw [scanFrom_token hkind hnext, handOut, hnext]
      dsimp only
      rw [if_neg hkind']
      cases hdoc : docString? name ⟨kind, e.text, line⟩ with
      | none => rw [List.filterMap_cons_none hdoc]; exact ih _ rfl hmore
      | some d =>
        rw [List.filterMap_cons_some hdoc]
        dsimp only
        rw [ih limit rfl hmore]
        simp
    · rw [hhalts.scanFrom_eq hnext, handOut, hnext]
      cases outcome with
      | error error => simp [failure?]
      | ok token => simp [hhalts.kind_eq, failure?]

/-- **A reader that leaves early** has seen the first documentation strings of the source, and the
error only if it has read on past the last of them. -/
theorem docStringsUpTo_eq (source : Source) (limit : Nat) :
    source.docStringsUpTo limit =
      (source.docStrings.1.take limit,
        if source.docStrings.1.length < limit then source.docStrings.2 else none) := by
  have hscan : scanFrom source.ending (source.bytes.length + 1) source.scanner = source.scan :=
    scanFrom_of_le source.ending (s := source.scanner) rfl (Nat.le_refl _) (Nat.le_succ _)
  have hseen := handOut_eq source.ending source.name (source.bytes.length + 1) limit
    (s := source.scanner) rfl (Nat.lt_succ_self source.bytes.length)
  rw [docStringsUpTo, hseen, hscan, docStrings_eq]

/-- **The documentation strings of a source are its documentation literals.** A source has one run
of elements, and the documentation strings are the bodies of the literals among them that three
double quotes open and no letters precede, with continued lines joined, in their order and on their
lines. A token that starts with three double quotes has room for three others after its body, and
these are the first that close it; so the text is read from the body and from all of it. A reader
that leaves after a number of documentation strings has seen the first of them, and it sees the
error that ends the source only when it asks for more than there are. -/
theorem docStrings_exact (source : Source) :
    (∃ es rest, Cuts source.bytes es rest ∧ IsEnd rest ∧
      (∀ es' rest', Cuts source.bytes es' rest' → IsEnd rest' → es' = es) ∧
      source.docStrings.1 = documented source.name 1 es) ∧
    (∀ token ∈ source.scan.1, token.kind = .string → docQuotes <+: token.text →
      6 ≤ token.text.length ∧
        ∃ body, Literal.Reads true body ∧ Literal.ClosesFirst Byte.doubleQuote true body ∧
          token.text = docQuotes ++ Literal.written body ++ docQuotes ∧
          docText? token.text = some (joinLines (Literal.written body))) ∧
    ∀ limit, source.docStringsUpTo limit =
      (source.docStrings.1.take limit,
        if source.docStrings.1.length < limit then source.docStrings.2 else none) := by
  refine ⟨?_, fun token hmem hkind hq => ?_, docStringsUpTo_eq source⟩
  · obtain ⟨es, rest, hcuts, hend, -⟩ := exists_scan_eq_placed source.name source.bytes
    exact ⟨es, rest, hcuts, hend, fun es' rest' hcuts' hend' =>
      hcuts'.eq_of_isEnd hend' hcuts hend, docStrings_fst_eq_documented hcuts hend⟩
  · obtain ⟨body, hreads, hcloses, htext⟩ := exists_body_of_docQuotes hmem hkind hq
    have hlength : token.text.length = (Literal.written body).length + 6 := by
      rw [htext]
      simp [docQuotes]
    refine ⟨by omega, body, hreads, hcloses, htext, ?_⟩
    rw [htext, docText?_eq_docBody?, docBody?_quoted]
    rfl

-- a quote right after the opening ones, letters before a literal, and a literal that is not closed
example :
    let bytes := utf8 "\"\"\"\"a\"\"\" r\"\"\"b\"\"\"\n\"\"\"\"\"\"'"
    docStringsUpTo ⟨utf8 "a.py", bytes, .complete⟩ 2 =
        ([⟨utf8 "\"a", utf8 "a.py", 1⟩, ⟨[], utf8 "a.py", 2⟩], none) ∧
      docStringsUpTo ⟨utf8 "a.py", bytes, .complete⟩ 3 =
        ([⟨utf8 "\"a", utf8 "a.py", 1⟩, ⟨[], utf8 "a.py", 2⟩], some (.malformed .openLine 2)) := by
  decide

end DocHarvest.Source
