import DocHarvest.Proofs.Source.Cuts

/-!
# Scans

A scan passes over blanks and comments and hands out the token after them, or it halts: at the
end of the source, in a literal that nothing closes, or where the supply of bytes fails. All
that a scan can do is said once, in `Scanner.next_cases`; from it follows by induction what
repeated scans do.

## Main definitions

* `Halts` — how a scan ends that hands out no token.
* `Scanner.after`, `result` — the scanner after a number of scans, and what the next one gives.

## Main results

* `Scanner.next_cases` — what one scan does.
* `scanFrom_cases`, `scan_halts` — what repeated scans do.
* `result_eq_scan` — scans made one by one give the tokens of the whole scan, and then its end.
-/

namespace DocHarvest.Source

/-- How a scan ends that hands out no token, given how the supply of bytes ends, the number of
open brackets, and the line and the text it halts at. -/
inductive Halts (ending : Ending) (depth line : Nat) (rest : Bytes) :
    Except ScanError Token → Prop
  | finished : ending = .complete → depth = 0 → rest = [] →
      Halts ending depth line rest (.ok ⟨.endOfFile, [], line⟩)
  | openBracket : ending = .complete → 0 < depth → rest = [] →
      Halts ending depth line rest (.error (.malformed .openBracket line))
  | unreadable {cause : Cause} : ending = .failure cause → rest = [] →
      Halts ending depth line rest (.error (.unreadable cause))
  /-- A word at the end of a supply that fails might have gone on. -/
  | lostWord {cause : Cause} {e : Element} : ending = .failure cause → e.Fits [] →
      e.kind? = some .name ∨ e.kind? = some .number → rest = e.text →
      Halts ending depth line rest (.error (.unreadable cause))
  | broken {mark : Bytes} {q : UInt8} {after : Bytes} : Literal.Opens mark q false after →
      rest = mark ++ Literal.delimiter q false ++ after → Literal.cut q false after = .broken →
      Halts ending depth line rest (.error (.malformed .openLine line))
  | interrupted {mark : Bytes} {q : UInt8} {long : Bool} {after : Bytes} :
      Literal.Opens mark q long after → rest = mark ++ Literal.delimiter q long ++ after →
      Literal.cut q long after = .exhausted →
      Halts ending depth line rest (.error (Scanner.interrupted ending long line))

/-- The error that a result is, if it is one. -/
def failure? : Except ScanError Token → Option ScanError
  | .error e => some e
  | .ok _ => none

/-- The brackets that a token leaves open are those of its element. -/
theorem bracketDepth_eq_nest {e : Element} {kind : Kind} (h : e.kind? = some kind)
    (depth : Nat) : bracketDepth depth kind e.text = e.nest depth := by
  cases e <;> simp only [Element.kind?, Option.some.injEq, reduceCtorEq] at h <;> subst h
  case op b =>
    have h₁ : utf8 "([\x7b" = [40, 91, 123] := by decide
    have h₂ : utf8 ")]\x7d" = [41, 93, 125] := by decide
    have h₃ : utf8 "(" = [40] ∧ utf8 "[" = [91] ∧ utf8 "\x7b" = [123] := by decide
    have h₄ : utf8 ")" = [41] ∧ utf8 "]" = [93] ∧ utf8 "\x7d" = [125] := by decide
    simp [bracketDepth, Element.nest, Element.text, h₁, h₂, h₃, h₄, or_assoc]
  all_goals rfl

/-- A scan with no bytes left halts. -/
theorem Scanner.atEnd_halts (ending : Ending) {s : Scanner} (h : s.error? = none)
    (hrest : s.rest = []) :
    ∃ outcome, Halts ending s.depth s.line [] outcome ∧
      s.atEnd ending = (outcome, ⟨[], s.line, s.depth, failure? outcome⟩) := by
  obtain ⟨rest, line, depth, e?⟩ := s
  dsimp only at h hrest
  subst h hrest
  cases ending with
  | failure cause => exact ⟨_, .unreadable rfl rfl, rfl⟩
  | complete =>
    by_cases hd : 0 < depth
    · exact ⟨_, .openBracket rfl hd rfl, by simp [Scanner.atEnd, Scanner.fail, hd, failure?]⟩
    · exact ⟨_, .finished rfl (Nat.eq_zero_of_not_pos hd) rfl,
        by simp [Scanner.atEnd, hd, failure?]⟩

/-- **What one scan does.** It passes over blanks and comments and then hands out the token
that stands there, or halts. -/
theorem Scanner.next_cases (ending : Ending) {s : Scanner} (h : s.error? = none) :
    ∃ gap line rest, Gap s.line s.rest gap line rest ∧
      ((∃ e kind more, Element.kind? e = some kind ∧ e.Fits more ∧ rest = e.text ++ more ∧
        s.next ending = (.ok ⟨kind, e.text, line⟩,
          ⟨more, line + Bytes.lineFeeds e.text, e.nest s.depth, none⟩)) ∨
      (∃ outcome, Halts ending s.depth line rest outcome ∧
        s.next ending = (outcome, ⟨rest, line, s.depth, failure? outcome⟩))) := by
  obtain ⟨gap, hgap⟩ := exists_gap_skipBlanks s.line s.rest
  refine ⟨gap, _, _, hgap, ?_⟩
  rw [Scanner.next, h]
  dsimp only
  generalize skipBlanks false s.line s.rest = place at hgap ⊢
  obtain ⟨line, rest⟩ := place
  rcases rest with - | ⟨b, tail⟩
  · exact .inr (Scanner.atEnd_halts ending (s := ⟨[], line, s.depth, none⟩) rfl rfl)
  obtain ⟨hblank, hhash⟩ := hgap.stops b rfl
  have hstands : (Lexeme.first b tail).Stands (b :: tail) := Lexeme.first_stands hblank hhash
  dsimp only
  cases hfirst : Lexeme.first b tail with
  | brokenLiteral =>
    rw [hfirst] at hstands
    obtain ⟨mark, q, after, hopens, heq, hcut⟩ := hstands
    exact .inr ⟨_, .broken hopens heq hcut, rfl⟩
  | openLiteral long =>
    rw [hfirst] at hstands
    obtain ⟨mark, q, after, hopens, heq, hcut⟩ := hstands
    exact .inr ⟨_, .interrupted hopens heq hcut, rfl⟩
  | token kind text more =>
    rw [hfirst] at hstands
    obtain ⟨e, hkind, rfl, hfits, heq⟩ := hstands
    dsimp only
    split
    · next cause hword =>
      refine .inr ⟨_, .lostWord rfl hfits ?_ (by simpa using heq), rfl⟩
      simpa [hkind] using hword
    · refine .inl ⟨e, kind, _, hkind, hfits, heq, ?_⟩
      rw [bracketDepth_eq_nest hkind]

/-! ### Repeated scans -/

/-- No element is a token that marks the end of the file. -/
theorem Element.kind?_ne_endOfFile (e : Element) : e.kind? ≠ some .endOfFile := by
  cases e <;> simp [Element.kind?]

/-- A scan that halts with a token has reached the end of the file. -/
theorem Halts.kind_eq {ending : Ending} {depth line : Nat} {rest : Bytes} {token : Token}
    (h : Halts ending depth line rest (.ok token)) : token.kind = .endOfFile := by
  cases h
  rfl

/-- A scan that halts with a token has come to the end of the text. -/
theorem Halts.rest_eq_nil {ending : Ending} {depth line : Nat} {rest : Bytes} {token : Token}
    (h : Halts ending depth line rest (.ok token)) : rest = [] := by
  cases h with
  | finished _ _ hrest => exact hrest

/-- A token takes bytes away from what is left to read. -/
theorem Gap.length_lt {line line' : Nat} {s rest more : Bytes} {gap : List Element}
    {e : Element} (h : Gap line s gap line' rest) (hrest : rest = e.text ++ more)
    (hfits : e.Fits more) : more.length < s.length := by
  have hpos := List.length_pos_iff.mpr (Element.text_ne_nil hfits)
  rw [h.cuts.eq_append, hrest]
  simp only [List.length_append]
  omega

/-- Blanks and comments open and close no brackets. -/
theorem Gap.foldl_nest {line line' : Nat} {s rest : Bytes} {gap : List Element}
    (h : Gap line s gap line' rest) (depth : Nat) : gap.foldl Element.nest depth = depth := by
  have hblank := h.blank
  clear h
  induction gap with
  | nil => rfl
  | cons e gap ih =>
    rw [List.forall_mem_cons] at hblank
    rw [List.foldl_cons]
    cases e <;> simp only [Element.kind?, reduceCtorEq, false_and] at hblank <;>
      exact ih hblank.2

/-- A scan that halts ends the repeated scans, whatever the fuel. -/
theorem Halts.scanFrom_eq {ending : Ending} {depth line : Nat} {rest : Bytes}
    {outcome : Except ScanError Token} {s after : Scanner}
    (h : Halts ending depth line rest outcome) (hnext : s.next ending = (outcome, after))
    (fuel : Nat) : scanFrom ending fuel s = ([], outcome) := by
  cases fuel with
  | zero => rw [scanFrom, hnext]
  | succ fuel =>
    rw [scanFrom, hnext]
    cases outcome with
    | error e => rfl
    | ok token => simp [h.kind_eq]

/-- A scan that hands out a token is followed by the scans after it. -/
theorem scanFrom_token {ending : Ending} {s after : Scanner} {e : Element} {token : Token}
    (hkind : e.kind? = some token.kind) (hnext : s.next ending = (.ok token, after))
    (fuel : Nat) :
    scanFrom ending (fuel + 1) s =
      (token :: (scanFrom ending fuel after).1, (scanFrom ending fuel after).2) := by
  have hkind' : token.kind ≠ .endOfFile := fun hk => e.kind?_ne_endOfFile (hk ▸ hkind)
  rw [scanFrom, hnext]
  simp only [hkind', if_false]

/-- Fuel beyond one scan for every byte changes nothing. -/
theorem scanFrom_of_le (ending : Ending) {fuel fuel' : Nat} {s : Scanner} (h : s.error? = none)
    (hfuel : s.rest.length ≤ fuel) (hle : fuel ≤ fuel') :
    scanFrom ending fuel' s = scanFrom ending fuel s := by
  induction fuel generalizing s fuel' with
  | zero =>
    obtain ⟨gap, line, rest, hgap, hnext⟩ := s.next_cases ending h
    rcases hnext with ⟨e, kind, more, -, hfits, hrest, -⟩ | ⟨outcome, hhalts, hnext⟩
    · have hlt := hgap.length_lt hrest hfits
      omega
    · rw [hhalts.scanFrom_eq hnext, hhalts.scanFrom_eq hnext]
  | succ fuel ih =>
    obtain ⟨gap, line, rest, hgap, hnext⟩ := s.next_cases ending h
    rcases hnext with ⟨e, kind, more, hkind, hfits, hrest, hnext⟩ | ⟨outcome, hhalts, hnext⟩
    · have hlt := hgap.length_lt hrest hfits
      obtain ⟨extra, rfl⟩ : ∃ extra, fuel' = extra + 1 := ⟨fuel' - 1, by omega⟩
      rw [scanFrom_token hkind hnext, scanFrom_token hkind hnext,
        ih rfl (by dsimp only; omega) (Nat.le_of_succ_le_succ hle)]
    · rw [hhalts.scanFrom_eq hnext, hhalts.scanFrom_eq hnext]

/-- **What repeated scans do.** With fuel for every byte, they hand out the tokens of the
elements that the source is cut into, and end as a scan does that halts at the rest. -/
theorem scanFrom_cases (ending : Ending) (fuel : Nat) {s : Scanner} (h : s.error? = none)
    (hfuel : s.rest.length ≤ fuel) :
    ∃ es rest outcome, Cuts s.rest es rest ∧
      scanFrom ending fuel s = (placed s.line es, outcome) ∧
      Halts ending (es.foldl Element.nest s.depth) (s.line + Bytes.lineFeeds (spelled es)) rest
        outcome := by
  induction fuel generalizing s with
  | zero =>
    obtain ⟨gap, line, rest, hgap, hnext⟩ := s.next_cases ending h
    rcases hnext with ⟨e, kind, more, hkind, hfits, hrest, hnext⟩ | ⟨outcome, hhalts, hnext⟩
    · have hlt := hgap.length_lt hrest hfits
      omega
    · refine ⟨gap, rest, outcome, hgap.cuts, ?_, ?_⟩
      · rw [hhalts.scanFrom_eq hnext, placed_eq_nil hgap.blank]
      · rwa [hgap.foldl_nest, ← hgap.counted]
  | succ fuel ih =>
    obtain ⟨gap, line, rest, hgap, hnext⟩ := s.next_cases ending h
    rcases hnext with ⟨e, kind, more, hkind, hfits, hrest, hnext⟩ | ⟨outcome, hhalts, hnext⟩
    · have hlt := hgap.length_lt hrest hfits
      obtain ⟨es, rest', outcome, hcuts, hscan, hhalts⟩ :=
        ih (s := ⟨more, line + Bytes.lineFeeds e.text, e.nest s.depth, none⟩) rfl
          (by dsimp only; omega)
      have hline : s.line + Bytes.lineFeeds (spelled gap) = line := hgap.counted.symm
      refine ⟨gap ++ e :: es, rest', outcome, ?_, ?_, ?_⟩
      · exact hgap.cuts.append (hrest ▸ .step hfits hcuts)
      · rw [scanFrom_token hkind hnext, hscan, placed_append, placed_eq_nil hgap.blank, hline,
          placed, hkind]
        rfl
      · rw [List.foldl_append, hgap.foldl_nest, List.foldl_cons, spelled_append, spelled_cons,
          Bytes.lineFeeds_append, Bytes.lineFeeds_append, ← Nat.add_assoc, hline,
          ← Nat.add_assoc]
        exact hhalts
    · refine ⟨gap, rest, outcome, hgap.cuts, ?_, ?_⟩
      · rw [hhalts.scanFrom_eq hnext, placed_eq_nil hgap.blank]
      · rwa [hgap.foldl_nest, ← hgap.counted]

/-- Scanning a source hands out the tokens of the elements that it is cut into, up to where a
scan halts. -/
theorem scan_halts (source : Source) :
    ∃ es rest outcome, Cuts source.bytes es rest ∧ source.scan = (placed 1 es, outcome) ∧
      Halts source.ending (nesting es) (1 + Bytes.lineFeeds (spelled es)) rest outcome :=
  scanFrom_cases source.ending source.bytes.length (s := source.scanner) rfl (Nat.le_refl _)

/-- Every token of a scan is an element of the source that fits what follows it. -/
theorem exists_fits_of_mem_scan {source : Source} {token : Token} (h : token ∈ source.scan.1) :
    ∃ e rest, e.Fits rest ∧ e.kind? = some token.kind ∧ Element.text e = token.text := by
  obtain ⟨all, last, outcome, hcuts, hscan, -⟩ := scan_halts source
  rw [hscan] at h
  obtain ⟨before, after, hsplit⟩ := List.append_of_mem h
  obtain ⟨es, e, es', rfl, -, hkind, htext, -⟩ := exists_of_placed_eq hsplit
  obtain ⟨mid, -, hmid⟩ := Cuts.append_iff.mp hcuts
  obtain ⟨rest, -, hfits, -⟩ := Cuts.cons_iff.mp hmid
  exact ⟨e, rest, hfits, hkind, htext⟩

/-! ### One scan after another -/

/-- The scanner after a number of scans. -/
def Scanner.after (ending : Ending) : Nat → Scanner → Scanner
  | 0, s => s
  | n + 1, s => Scanner.after ending n (s.next ending).2

/-- What the scan of a source after a number of others gives. -/
def result (source : Source) (n : Nat) : Except ScanError Token :=
  ((source.scanner.after source.ending n).next source.ending).1

/-- A scanner that has failed fails again. -/
theorem Scanner.next_of_failed (ending : Ending) {s : Scanner} {e : ScanError}
    (h : s.error? = some e) : s.next ending = (.error e, s) := by
  rw [Scanner.next, h]

/-- A scan that has halted halts again in the same way, and leaves the scanner as it is. -/
theorem Halts.next_again {ending : Ending} {depth line : Nat} {rest : Bytes}
    {outcome : Except ScanError Token} (h : Halts ending depth line rest outcome) :
    (⟨rest, line, depth, failure? outcome⟩ : Scanner).next ending =
      (outcome, ⟨rest, line, depth, failure? outcome⟩) := by
  cases outcome with
  | error e => exact Scanner.next_of_failed ending rfl
  | ok token =>
    cases h with
    | finished hending hdepth hrest =>
      subst hending hdepth hrest
      rfl

/-- Once a scan has halted, so does every later one, in the same way. -/
theorem Halts.next_after {ending : Ending} {depth line : Nat} {rest : Bytes} {s : Scanner}
    {outcome : Except ScanError Token} (h : Halts ending depth line rest outcome)
    (hnext : s.next ending = (outcome, ⟨rest, line, depth, failure? outcome⟩)) (n : Nat) :
    ((s.after ending n).next ending).1 = outcome := by
  induction n generalizing s with
  | zero => rw [Scanner.after, hnext]
  | succ n ih =>
    rw [Scanner.after, hnext]
    exact ih h.next_again

/-- **Scans made one by one** hand out the tokens of the whole scan in order, and from then on
every one of them ends as the whole scan does. -/
theorem Scanner.next_after (ending : Ending) (fuel : Nat) {s : Scanner} (h : s.error? = none)
    (hfuel : s.rest.length ≤ fuel) (n : Nat) :
    ((s.after ending n).next ending).1 =
      ((scanFrom ending fuel s).1[n]?).elim (scanFrom ending fuel s).2 .ok := by
  induction fuel generalizing s n with
  | zero =>
    obtain ⟨gap, line, rest, hgap, hnext⟩ := s.next_cases ending h
    rcases hnext with ⟨e, kind, more, -, hfits, hrest, -⟩ | ⟨outcome, hhalts, hnext⟩
    · have hlt := hgap.length_lt hrest hfits
      omega
    · rw [hhalts.next_after hnext, hhalts.scanFrom_eq hnext]
      rfl
  | succ fuel ih =>
    obtain ⟨gap, line, rest, hgap, hnext⟩ := s.next_cases ending h
    rcases hnext with ⟨e, kind, more, hkind, hfits, hrest, hnext⟩ | ⟨outcome, hhalts, hnext⟩
    · have hlt := hgap.length_lt hrest hfits
      rw [scanFrom_token hkind hnext]
      cases n with
      | zero =>
        rw [Scanner.after, hnext]
        rfl
      | succ n =>
        rw [Scanner.after, hnext, List.getElem?_cons_succ]
        exact ih rfl (by dsimp only; omega) n
    · rw [hhalts.next_after hnext, hhalts.scanFrom_eq hnext]
      rfl

/-- The scans of a source, one by one. -/
theorem result_eq_scan (source : Source) (n : Nat) :
    source.result n = (source.scan.1[n]?).elim source.scan.2 .ok :=
  Scanner.next_after source.ending source.bytes.length (s := source.scanner) rfl (Nat.le_refl _) n

end DocHarvest.Source
