import DocHarvest.Proofs.Source.Lines
import DocHarvest.Proofs.Source.Recognition

/-!
# Sources That Cannot Be Read to Their End

The supply of a source's bytes may fail. What was delivered before is then scanned as it would be
if it were the whole source, and the failure is reported where the end would have been found. Only
a name or a number right before the failure is lost, because it might have gone on; a literal that
has been closed is not, and neither is the error for a line feed that breaks a literal of one line.

Whether a line feed breaks a literal is said here in the grammar's own pieces: the pieces before
it hold no quote that closes the literal, and no backslash protects it.

## Main definitions

* `Literal.Breaks`, `Broken` — a line feed breaks a literal of one line.

## Main results

* `Literal.cut_eq_broken_iff` — the search for the closing quote finds such line feeds.
* `scan_of_failure` — scanning a source whose supply fails against scanning its bytes.
* `docStrings_of_failure` — a failure is never taken for the end of the source.
-/

namespace DocHarvest.Source

/-! ### Broken literals -/

namespace Literal

/-- The text after the quote of a literal of one line holds a line feed that nothing protects,
and no quote before it closes the literal. The last piece before the line feed is not a protected
carriage return, because the backslash would then protect both. -/
def Breaks (q : UInt8) (after : Bytes) : Prop :=
  ∃ body more, Reads false body ∧ ClosesFirst q false body ∧
    body.getLast? ≠ some (.escaped Byte.carriageReturn) ∧
    after = written body ++ Byte.lineFeed :: more

/-- In a short literal, no piece but the last is a bare quote. -/
theorem closesFirst_short_cons {q : UInt8} {piece : Piece} {body : List Piece} :
    ClosesFirst q false (piece :: body) ↔ piece ≠ .plain q ∧ ClosesFirst q false body := by
  rw [closesFirst_cons]
  simp [closing, delimiter, eq_comm]

/-- The last of some pieces, with one more put in front of them. -/
theorem getLast?_cons_ne_iff {piece next : Piece} {body : List Piece} :
    (piece :: body).getLast? ≠ some next ↔
      (body = [] → piece ≠ next) ∧ body.getLast? ≠ some next := by
  cases body with
  | nil => simp
  | cons other body => simp [List.getLast?_cons_cons]

/-- A literal that the search finds broken is broken by a line feed. -/
theorem breaks_of_cut_broken {q : UInt8} {s : Bytes} (h : cut q false s = .broken) :
    Breaks q s := by
  fun_induction cut q false s with
  | case1 => simp at h
  | case2 => simp at h
  | case3 tail ih =>
    obtain ⟨body, more, hreads, hcloses, hlast, rfl⟩ := ih (Cut.after_eq_broken h)
    exact ⟨.escapedLineEnd :: body, more, reads_escapedLineEnd_cons.mpr hreads,
      closesFirst_short_cons.mpr ⟨by simp, hcloses⟩, getLast?_cons_ne_iff.mpr ⟨by simp, hlast⟩,
      by simp [Piece.bytes]⟩
  | case4 b tail hb ih =>
    obtain ⟨body, more, hreads, hcloses, hlast, rfl⟩ := ih (Cut.after_eq_broken h)
    refine ⟨.escaped b :: body, more, reads_escaped_cons.mpr ⟨fun _ hhead => ?_, hreads⟩,
      closesFirst_short_cons.mpr ⟨by simp, hcloses⟩, getLast?_cons_ne_iff.mpr ⟨?_, hlast⟩,
      by simp [Piece.bytes]⟩
    · exact hreads.oneLine rfl (List.mem_of_mem_head? hhead)
    · rintro rfl hcr
      exact hb more (Piece.escaped.inj hcr) rfl
  | case5 => simp at h
  | case6 b tail h1 h2 h3 hpre hline =>
    obtain rfl : b = Byte.lineFeed := by simpa using hline
    exact ⟨[], tail, reads_nil false, closesFirst_nil q false, by simp, rfl⟩
  | case7 b tail h1 h2 h3 hpre hline ih =>
    obtain ⟨body, more, hreads, hcloses, hlast, rfl⟩ := ih (Cut.after_eq_broken h)
    have hb : b ≠ Byte.backslash := ne_backslash_of_single h1 h3
    have hlf : b ≠ Byte.lineFeed := by simpa using hline
    have hq : b ≠ q := by
      rintro rfl
      simp [delimiter] at hpre
    exact ⟨.plain b :: body, more, reads_plain_cons.mpr ⟨hb, fun _ => hlf, hreads⟩,
      closesFirst_short_cons.mpr ⟨by simpa using hq, hcloses⟩,
      getLast?_cons_ne_iff.mpr ⟨by simp, hlast⟩, by simp [Piece.bytes]⟩

/-- A literal that a line feed breaks is found broken. -/
theorem cut_broken_of_breaks {q : UInt8} {s : Bytes} (hq : isQuote q) (h : Breaks q s) :
    cut q false s = .broken := by
  obtain ⟨body, more, hreads, hcloses, hlast, rfl⟩ := h
  induction body with
  | nil =>
    rw [written_nil, List.nil_append, cut_lineFeed hq]
    rfl
  | cons piece body ih =>
    obtain ⟨hpiece, hcloses'⟩ := closesFirst_short_cons.mp hcloses
    have hlast' := (getLast?_cons_ne_iff.mp hlast).2
    rw [written_cons, List.append_assoc]
    cases piece with
    | plain b =>
      obtain ⟨hb, hlf, hreads⟩ := reads_plain_cons.mp hreads
      have hpre : ¬ (delimiter q false).isPrefixOf
          (b :: (written body ++ Byte.lineFeed :: more)) := by
        simpa [delimiter] using fun hq => hpiece (congrArg Piece.plain hq.symm)
      have hcut := cut_plain q false (written body ++ Byte.lineFeed :: more) hb
      rw [if_neg hpre, if_neg (by simpa using hlf rfl), ih hreads hcloses' hlast'] at hcut
      exact hcut
    | escaped b =>
      obtain ⟨-, hreads⟩ := reads_escaped_cons.mp hreads
      rw [cut_escaped, ih hreads hcloses' hlast']
      · rfl
      · rintro rfl hhead
        rcases body with - | ⟨next, body⟩
        · exact hlast rfl
        · have hbs : Byte.backslash ≠ Byte.lineFeed := by decide
          cases next with
          | plain c =>
            obtain rfl : c = Byte.lineFeed := by simpa [Piece.bytes] using hhead
            exact hreads.oneLine rfl (by simp)
          | escaped c => simp [Piece.bytes, hbs] at hhead
          | escapedLineEnd => simp [Piece.bytes, hbs] at hhead
    | escapedLineEnd =>
      rw [cut_escapedLineEnd, ih (reads_escapedLineEnd_cons.mp hreads) hcloses' hlast']
      rfl

/-- **Where a line feed breaks a literal** is where the search for its end stops at one. -/
theorem cut_eq_broken_iff {q : UInt8} {s : Bytes} (hq : isQuote q) :
    cut q false s = .broken ↔ Breaks q s :=
  ⟨breaks_of_cut_broken, cut_broken_of_breaks hq⟩

end Literal

/-- A literal of one line starts that a line feed breaks. -/
def Broken (s : Bytes) : Prop :=
  ∃ mark q after, Literal.Opens mark q false after ∧ s = mark ++ q :: after ∧
    Literal.Breaks q after

/-- A broken literal is one that nothing closes. -/
theorem Broken.unclosed {s : Bytes} (h : Broken s) : Unclosed s .openLine := by
  obtain ⟨mark, q, after, hopens, rfl, hbreaks⟩ := h
  have hcut := (Literal.cut_eq_broken_iff hopens.isQuote).mpr hbreaks
  have hopen := unclosed_of_cut hopens (by simp [hcut])
  rwa [List.append_assoc] at hopen

/-- A literal that the end of the source interrupts is not a broken one. -/
theorem not_broken_of_exhausted {mark : Bytes} {q : UInt8} {long : Bool} {after : Bytes}
    (h : Literal.Opens mark q long after) (hcut : Literal.cut q long after = .exhausted) :
    ¬ Broken (mark ++ Literal.delimiter q long ++ after) := by
  rintro ⟨mark', q', after', hopens', heq, hbreaks⟩
  have heq' : mark ++ Literal.delimiter q long ++ after =
      mark' ++ Literal.delimiter q' false ++ after' := by
    simpa [Literal.delimiter] using heq
  obtain ⟨-, rfl, rfl, rfl⟩ := h.unique hopens' heq'
  rw [(Literal.cut_eq_broken_iff h.isQuote).mpr hbreaks] at hcut
  simp at hcut

/-! ### Scanning what was delivered -/

/-- A source that splits holds no broken literal where an element could stand. -/
theorem Splits.not_broken {s : Bytes} {es : List Element} (h : Splits s es) :
    ¬ ∃ es rest, Cuts s es rest ∧ Broken rest := by
  rintro ⟨es', rest, hcuts, hbroken⟩
  exact hbroken.unclosed.not_splits hcuts h

/-- A source that is cut up to an interrupted literal holds no broken one before it. -/
theorem Cuts.not_broken_of_exhausted {s mark : Bytes} {q : UInt8} {long : Bool} {after : Bytes}
    {es : List Element} (hcuts : Cuts s es (mark ++ Literal.delimiter q long ++ after))
    (h : Literal.Opens mark q long after) (hcut : Literal.cut q long after = .exhausted) :
    ¬ ∃ es rest, Cuts s es rest ∧ Broken rest := by
  rintro ⟨es', rest, hcuts', hbroken⟩
  have hopen := unclosed_of_cut h (by simp [hcut])
  obtain ⟨-, rfl⟩ := hcuts.eq_of_unclosed hopen hcuts' hbroken.unclosed
  exact Source.not_broken_of_exhausted h hcut hbroken

/-- **How scanning ends when the supply fails.** The tokens are those of the bytes that were
delivered, but for a word at their end. The error is the failure, unless a line feed breaks a
literal first; then it is the error for the broken literal. -/
theorem scan_of_failure (name s : Bytes) (cause : Cause) :
    ∃ tokens words outcome e, scan ⟨name, s, .complete⟩ = (tokens ++ words, outcome) ∧
      scan ⟨name, s, .failure cause⟩ = (tokens, .error e) ∧ (∀ w ∈ words, w.kind ≠ .string) ∧
      ((∃ es rest, Cuts s es rest ∧ Broken rest ∧
          e = .malformed .openLine (1 + Bytes.lineFeeds (spelled es)) ∧ outcome = .error e) ∨
        (¬ ∃ es rest, Cuts s es rest ∧ Broken rest) ∧ e = .unreadable cause) := by
  obtain ⟨es, rest, outcome, hcuts, hscan, hhalts⟩ := scan_halts ⟨name, s, .failure cause⟩
  dsimp only at hcuts hscan hhalts
  cases hhalts with
  | finished hending => simp at hending
  | openBracket hending => simp at hending
  | unreadable hending hrest =>
    obtain rfl := Ending.failure.inj hending
    subst hrest
    have hwhole := scan_eq_of_splits name hcuts
    rw [← List.append_nil (placed 1 es)] at hwhole
    exact ⟨placed 1 es, [], _, _, hwhole, hscan, by simp, .inr ⟨Splits.not_broken hcuts, rfl⟩⟩
  | @lostWord _ e hending hfits hword hrest =>
    obtain rfl := Ending.failure.inj hending
    have hsplits : Splits s (es ++ [e]) := by
      refine hcuts.append ?_
      rw [hrest, ← List.append_nil e.text]
      exact .single hfits
    have hwhole := scan_eq_of_splits name hsplits
    rw [placed_append] at hwhole
    refine ⟨placed 1 es, _, _, _, hwhole, hscan, ?_, .inr ⟨hsplits.not_broken, rfl⟩⟩
    rcases hword with hk | hk <;> simp [placed, hk]
  | broken hopens hrest hcut =>
    have hwhole := scan_eq_of_halts name hcuts (.broken hopens hrest hcut)
    rw [← List.append_nil (placed 1 es)] at hwhole
    refine ⟨placed 1 es, [], _, _, hwhole, hscan, by simp, .inl ⟨es, rest, hcuts, ?_, rfl, rfl⟩⟩
    refine ⟨_, _, _, hopens, ?_, (Literal.cut_eq_broken_iff hopens.isQuote).mp hcut⟩
    simpa [Literal.delimiter] using hrest
  | interrupted hopens hrest hcut =>
    have hwhole := scan_eq_of_halts name hcuts (.interrupted hopens hrest hcut)
    rw [← List.append_nil (placed 1 es)] at hwhole
    refine ⟨placed 1 es, [], _, _, hwhole, hscan, by simp, .inr ⟨?_, rfl⟩⟩
    exact (hrest ▸ hcuts).not_broken_of_exhausted hopens hcut

/-- Only literals are documentation. -/
theorem docString?_eq_none {token : Token} (h : token.kind ≠ .string) (name : Bytes) :
    docString? name token = none := by
  simp [docString?, h]

/-- **A failure is never taken for the end of the source.** When the supply of a source's bytes
fails, the documentation strings are those of the bytes that were delivered, and an error follows
them. It is the error for a literal that a line feed breaks, when there is one, which the bytes
alone give as well, and the failure otherwise; so it is never an error about the end of the source.
Scanning one token after another comes to this error after a number of tokens, and every later
scan gives it again. -/
theorem docStrings_of_failure (name s : Bytes) (cause : Cause) :
    (docStrings ⟨name, s, .failure cause⟩).1 = (docStrings ⟨name, s, .complete⟩).1 ∧
    ∃ e, (docStrings ⟨name, s, .failure cause⟩).2 = some e ∧
      ((∃ es rest, Cuts s es rest ∧ Broken rest ∧
          e = .malformed .openLine (1 + Bytes.lineFeeds (spelled es)) ∧
          (docStrings ⟨name, s, .complete⟩).2 = some e ∧
          e.message name = name ++ utf8 ":" ++ decimalNat (1 + Bytes.lineFeeds (spelled es)) ++
            utf8 ": " ++ utf8 "EOL while scanning string literal") ∨
        (¬ ∃ es rest, Cuts s es rest ∧ Broken rest) ∧ e = .unreadable cause ∧
          e.message name = utf8 "reading " ++ name ++ utf8 ": " ++ cause.message) ∧
      ∃ n, (∀ m, m < n → ∃ token, token.kind ≠ .endOfFile ∧
          result ⟨name, s, .failure cause⟩ m = .ok token) ∧
        ∀ m, n ≤ m → result ⟨name, s, .failure cause⟩ m = .error e := by
  obtain ⟨tokens, words, outcome, e, hwhole, hfailing, hwords, herror⟩ :=
    scan_of_failure name s cause
  have hdocs : docStrings ⟨name, s, .failure cause⟩ =
      (tokens.filterMap (docString? name), some e) := by
    rw [docStrings, hfailing]
  have hdocs' : (docStrings ⟨name, s, .complete⟩).1 = tokens.filterMap (docString? name) := by
    have hnone : words.filterMap (docString? name) = [] :=
      List.filterMap_eq_nil_iff.mpr fun w hw => docString?_eq_none (hwords w hw) name
    rw [docStrings, hwhole]
    simp only [List.filterMap_append, hnone, List.append_nil]
  rw [hdocs, hdocs']
  refine ⟨rfl, e, rfl, ?_, tokens.length, fun m hm => ?_, fun m hm => ?_⟩
  · rcases herror with ⟨es, rest, hcuts, hbroken, rfl, rfl⟩ | ⟨hnone, rfl⟩
    · refine .inl ⟨es, rest, hcuts, hbroken, rfl, ?_, rfl⟩
      rw [docStrings, hwhole]
    · exact .inr ⟨hnone, rfl, rfl⟩
  · have hmem : tokens[m] ∈ (scan ⟨name, s, .failure cause⟩).1 := by
      rw [hfailing]
      exact List.getElem_mem hm
    obtain ⟨e', -, -, hkind, -⟩ := exists_fits_of_mem_scan hmem
    refine ⟨tokens[m], fun hend => e'.kind?_ne_endOfFile (hend ▸ hkind), ?_⟩
    rw [result_eq_scan, hfailing, List.getElem?_eq_getElem hm]
    rfl
  · rw [result_eq_scan, hfailing, List.getElem?_eq_none hm]
    rfl

-- the literal is closed and kept, and the name after it is lost
example :
    docStrings ⟨utf8 "a.py", utf8 "\"\"\"x\"\"\"\nname", .failure (.reported (utf8 "lost"))⟩ =
      ([⟨utf8 "x", utf8 "a.py", 1⟩], some (.unreadable (.reported (utf8 "lost")))) := by
  decide

end DocHarvest.Source
