import DocHarvest.Proofs.Source.Scans
import DocHarvest.Source.DocString

/-!
# Line Numbers

Every result of a scan that carries a line carries the right one: a token the line it starts on,
the end of the file and an open bracket the last line, and a literal that nothing closes the line
of the quote that opens it. The invariant behind this is that a scanner's line is one more than
the number of line feeds it has read, whichever elements they stood in.

## Main definitions

* `Located` — a result carries the line of the place it was found at.
* `Reached` — a scanner stands after a run of elements and has counted their line feeds.

## Main results

* `Reached.next` — one scan keeps the invariant, and its result is located.
* `Reached.after` — so does every number of scans.
* `result_lines_exact` — the lines of tokens, errors and documentation strings.
-/

namespace DocHarvest.Source

/-! ### Where a result was found -/

/-- A token is the element of a source that a number of tokens stand before, and carries the
line of the element's first byte. -/
def TokenLocated (source : Source) (n : Nat) (token : Token) : Prop :=
  ∃ es e rest, Cuts source.bytes (es ++ [e]) rest ∧ (placed 1 es).length = n ∧
    e.kind? = some token.kind ∧ e.text = token.text ∧
    source.bytes = spelled es ++ token.text ++ rest ∧
    token.line = 1 + Bytes.lineFeeds (spelled es)

/-- An error carries the line of the place it was found at: the last line when brackets are
open, the line of the opening quote when nothing closes a literal. -/
def ErrorLocated (source : Source) : ScanError → Prop
  | .malformed .openBracket line => line = 1 + Bytes.lineFeeds source.bytes
  | .malformed what line =>
    ∃ es mark q more, Cuts source.bytes es (mark ++ q :: more) ∧
      Unclosed (mark ++ q :: more) what ∧ (mark = [] ∨ isLiteralMark mark) ∧ isQuote q ∧
      source.bytes = spelled es ++ mark ++ q :: more ∧
      line = 1 + Bytes.lineFeeds (spelled es ++ mark)
  | .unreadable _ => True

/-- A result carries the line of the place it was found at. -/
def Located (source : Source) (n : Nat) : Except ScanError Token → Prop
  | .ok token =>
    if token.kind = .endOfFile then token.line = 1 + Bytes.lineFeeds source.bytes
    else TokenLocated source n token
  | .error e => ErrorLocated source e

/-- The letters before a literal hold no line feed. -/
theorem Literal.Opens.lineFeeds_mark {mark : Bytes} {q : UInt8} {long : Bool} {after : Bytes}
    (h : Literal.Opens mark q long after) : Bytes.lineFeeds mark = 0 := by
  refine List.count_eq_zero_of_not_mem fun hmem => ?_
  exact absurd ((h.maximalRun []).inside _ hmem) (by decide)

/-- The error for a literal that nothing closes carries the line of the opening quote. -/
theorem errorLocated_of_cut {source : Source} {es : List Element} {mark : Bytes} {q : UInt8}
    {long : Bool} {after : Bytes} (h : Literal.Opens mark q long after)
    (hcuts : Cuts source.bytes es (mark ++ Literal.delimiter q long ++ after))
    (hcut : ∀ body rest, Literal.cut q long after ≠ .closed body rest) :
    ErrorLocated source (.malformed (if long then .openText else .openLine)
      (1 + Bytes.lineFeeds (spelled es))) := by
  have hopen := unclosed_of_cut h hcut
  have hline : Bytes.lineFeeds (spelled es) = Bytes.lineFeeds (spelled es ++ mark) := by
    rw [Bytes.lineFeeds_append, h.lineFeeds_mark, Nat.add_zero]
  cases long <;> rw [List.append_assoc] at hcuts hopen <;> rw [hline] <;>
    exact ⟨es, mark, q, _, hcuts, hopen, h.isMark, h.isQuote,
      by simp [hcuts.eq_append, Literal.delimiter], rfl⟩

/-- A scan that halts gives the line it halts at. -/
theorem Halts.located {source : Source} {es : List Element} {depth : Nat} {rest : Bytes}
    {outcome : Except ScanError Token} (hcuts : Cuts source.bytes es rest)
    (h : Halts source.ending depth (1 + Bytes.lineFeeds (spelled es)) rest outcome) (n : Nat) :
    Located source n outcome := by
  have hall : rest = [] → spelled es = source.bytes := by
    rintro rfl
    simpa using hcuts.eq_append.symm
  cases h with
  | finished _ _ hrest => simp [Located, hall hrest]
  | openBracket _ _ hrest => simp [Located, ErrorLocated, hall hrest]
  | unreadable => trivial
  | lostWord => trivial
  | broken hopens hrest hcut =>
    exact errorLocated_of_cut hopens (hrest ▸ hcuts) (by simp [hcut])
  | interrupted hopens hrest hcut =>
    cases hending : source.ending with
    | failure cause => trivial
    | complete => exact errorLocated_of_cut hopens (hrest ▸ hcuts) (by simp [hcut])

/-! ### The invariant of scanning -/

/-- A scanner after a number of scans: while it has not failed, it stands after a run of
elements whose line feeds it has counted, and as many of them are tokens as scans were made,
unless the end was reached; once it has failed, its error is located. -/
structure Reached (source : Source) (n : Nat) (s : Scanner) : Prop where
  reading : s.error? = none → ∃ es, Cuts source.bytes es s.rest ∧
    s.line = 1 + Bytes.lineFeeds (spelled es) ∧ (s.rest ≠ [] → (placed 1 es).length = n)
  failed : ∀ e, s.error? = some e → ErrorLocated source e

/-- A scanner at the start of a source has reached no token. -/
theorem reached_scanner (source : Source) : Reached source 0 source.scanner where
  reading _ := ⟨[], .stop _, rfl, fun _ => rfl⟩
  failed e h := by simp [scanner] at h

/-- **The step of the invariant.** One scan keeps it, and its result is located. -/
theorem Reached.next {source : Source} {n : Nat} {s : Scanner} (h : Reached source n s) :
    Located source n (s.next source.ending).1 ∧
      Reached source (n + 1) (s.next source.ending).2 := by
  cases herror : s.error? with
  | some e =>
    rw [s.next_of_failed source.ending herror]
    exact ⟨h.failed e herror, fun hnone => absurd (herror.symm.trans hnone) (by simp), h.failed⟩
  | none =>
    obtain ⟨es, hcuts, hline, hcount⟩ := h.reading herror
    obtain ⟨gap, line, rest, hgap, hnext⟩ := s.next_cases source.ending herror
    have hcuts' : Cuts source.bytes (es ++ gap) rest := hcuts.append hgap.cuts
    have hline' : line = 1 + Bytes.lineFeeds (spelled (es ++ gap)) := by
      rw [hgap.counted, hline, spelled_append, Bytes.lineFeeds_append, Nat.add_assoc]
    have hplaced : placed 1 (es ++ gap) = placed 1 es := by
      rw [placed_append, placed_eq_nil hgap.blank, List.append_nil]
    rcases hnext with ⟨e, kind, more, hkind, hfits, rfl, hnext⟩ | ⟨outcome, hhalts, hnext⟩
    · rw [hnext]
      have hne : s.rest ≠ [] := fun hnil => by
        have hlt := hgap.length_lt rfl hfits
        simp [hnil] at hlt
      have hkind' : kind ≠ .endOfFile := fun hk => e.kind?_ne_endOfFile (hk ▸ hkind)
      have hcuts'' : Cuts source.bytes (es ++ gap ++ [e]) more := hcuts'.append (.single hfits)
      refine ⟨?_, fun _ => ⟨_, hcuts'', ?_, fun _ => ?_⟩, fun e he => by simp at he⟩
      · rw [Located, if_neg hkind']
        refine ⟨es ++ gap, e, more, hcuts'', hplaced ▸ hcount hne, hkind, rfl, ?_, hline'⟩
        simp [hcuts''.eq_append]
      · simp [hline', Nat.add_assoc]
      · rw [placed_append, hplaced, List.length_append, hcount hne, placed, hkind]
        rfl
    · rw [hnext]
      have hlocated := (hline' ▸ hhalts).located hcuts' n
      refine ⟨hlocated, fun hnone => ⟨_, hcuts', hline', fun hne => ?_⟩, fun e he => ?_⟩
      · cases outcome with
        | error e => simp [failure?] at hnone
        | ok token => exact absurd hhalts.rest_eq_nil hne
      · cases outcome with
        | error e' =>
          obtain rfl : e' = e := by simpa [failure?] using he
          exact hlocated
        | ok token => simp [failure?] at he

/-- **The run.** Every number of scans keeps the invariant. -/
theorem Reached.after {source : Source} {m : Nat} {s : Scanner} (h : Reached source m s)
    (n : Nat) : Reached source (m + n) (s.after source.ending n) := by
  induction n generalizing m s with
  | zero => exact h
  | succ n ih =>
    rw [← Nat.add_assoc, Nat.add_right_comm]
    exact ih h.next.2

/-- Every result of a scan is located. -/
theorem located_result (source : Source) (n : Nat) : Located source n (source.result n) := by
  have h := (reached_scanner source).after n
  rw [Nat.zero_add] at h
  exact h.next.1

/-! ### Documentation strings -/

/-- A documentation string carries the line of its literal. -/
theorem docString?_eq_some {name : Bytes} {token : Token} {d : DocString}
    (h : docString? name token = some d) :
    token.kind = .string ∧ docText? token.text = some d.text ∧ d.line = token.line := by
  unfold docString? at h
  split at h
  · next hkind =>
    obtain ⟨text, htext, rfl⟩ := Option.map_eq_some_iff.mp h
    exact ⟨hkind, htext, rfl⟩
  · simp at h

/-- Only string literals are elements of the kind. -/
theorem Element.eq_string_of_kind? {e : Element} (h : e.kind? = some .string) :
    ∃ literal, e = .string literal := by
  cases e <;> simp [Element.kind?] at h
  exact ⟨_, rfl⟩

/-- Every documentation string of a source is the text of a literal, and carries the line that
the literal starts on. -/
theorem docStrings_located {source : Source} {before after : List DocString} {d : DocString}
    (h : source.docStrings.1 = before ++ d :: after) :
    ∃ es literal rest, Cuts source.bytes (es ++ [.string literal]) rest ∧
      (placed 1 es).filterMap (docString? source.name) = before ∧
      docText? literal.text = some d.text ∧ d.line = 1 + Bytes.lineFeeds (spelled es) := by
  obtain ⟨all, rest, outcome, hcuts, hscan, -⟩ := scan_halts source
  have hdocs : source.docStrings.1 = (placed 1 all).filterMap (docString? source.name) := by
    rw [docStrings, hscan]
  rw [hdocs, List.filterMap_eq_append_iff] at h
  obtain ⟨tokens, tokens', htokens, hbefore, htail⟩ := h
  obtain ⟨blank, token, others, rfl, hblank, hd, -⟩ := List.filterMap_eq_cons_iff.mp htail
  rw [← List.append_assoc] at htokens
  obtain ⟨es, e, es', rfl, hplaced, hkind, htext, hline⟩ := exists_of_placed_eq htokens
  obtain ⟨hstring, hdoc, hdline⟩ := docString?_eq_some hd
  obtain ⟨literal, rfl⟩ := Element.eq_string_of_kind? (hstring ▸ hkind)
  have hliteral : literal.text = token.text := htext
  rw [List.append_cons] at hcuts
  obtain ⟨mid, hmid, -⟩ := Cuts.append_iff.mp hcuts
  refine ⟨es, literal, mid, hmid, ?_, hliteral ▸ hdoc, ?_⟩
  · rw [hplaced, List.filterMap_append, hbefore, List.filterMap_eq_nil_iff.mpr hblank,
      List.append_nil]
  · rw [hdline, hline]
    simp

/-- **Lines are exact.** Whatever the number of scans made before, a token carries the line of
its first byte, the end of the file and an open bracket carry the last line, and a literal that
nothing closes carries the line of its opening quote. So does every documentation string. -/
theorem result_lines_exact (source : Source) :
    (∀ n token, source.result n = .ok token → token.kind ≠ .endOfFile →
      ∃ es e rest, Cuts source.bytes (es ++ [e]) rest ∧ (placed 1 es).length = n ∧
        e.kind? = some token.kind ∧ e.text = token.text ∧
        source.bytes = spelled es ++ token.text ++ rest ∧
        token.line = 1 + Bytes.lineFeeds (spelled es)) ∧
    (∀ n token, source.result n = .ok token → token.kind = .endOfFile →
      token.line = 1 + Bytes.lineFeeds source.bytes) ∧
    (∀ n line, source.result n = .error (.malformed .openBracket line) →
      line = 1 + Bytes.lineFeeds source.bytes) ∧
    (∀ n what line, source.result n = .error (.malformed what line) → what ≠ .openBracket →
      ∃ es mark q more, Cuts source.bytes es (mark ++ q :: more) ∧
        Unclosed (mark ++ q :: more) what ∧ (mark = [] ∨ isLiteralMark mark) ∧ isQuote q ∧
        source.bytes = spelled es ++ mark ++ q :: more ∧
        line = 1 + Bytes.lineFeeds (spelled es ++ mark)) ∧
    (∀ before (d : DocString) after, source.docStrings.1 = before ++ d :: after →
      ∃ es literal rest, Cuts source.bytes (es ++ [.string literal]) rest ∧
        (placed 1 es).filterMap (docString? source.name) = before ∧
        docText? literal.text = some d.text ∧ d.line = 1 + Bytes.lineFeeds (spelled es)) := by
  refine ⟨fun n token h hkind => ?_, fun n token h hkind => ?_, fun n line h => ?_,
    fun n what line h hwhat => ?_, fun _ _ _ => docStrings_located⟩
  all_goals have hlocated := located_result source n; rw [h] at hlocated
  · rwa [Located, if_neg hkind] at hlocated
  · rwa [Located, if_pos hkind] at hlocated
  · exact hlocated
  · cases what with
    | openText => exact hlocated
    | openLine => exact hlocated
    | openBracket => exact absurd rfl hwhat

end DocHarvest.Source
