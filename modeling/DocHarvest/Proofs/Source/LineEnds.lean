import DocHarvest.Proofs.Source.Scans

/-!
# Two-Byte Line Ends

A text may end its lines with a line feed, or with a carriage return and a line feed. Scanning does
not care which: when every line feed of a source without carriage returns gets a carriage return
in front of it, the tokens keep their kinds and lines, their texts change as the source does, and
scanning ends as before.

The carriage returns fall into every place a scan can be at. Between tokens they are blanks, and in
a comment part of it; in a literal they are bytes of the body, or protected together with the line
feed by the backslash before them. Each reader is shown to commute with the change on its own, and
then one scan, and then the run of them.

## Main definitions

* `Bytes.crlf`, `Bytes.ofCrlf` — line feeds as two-byte line ends, and back.

## Main results

* `Literal.cut_crlf`, `Lexeme.first_crlf`, `Scanner.next_crlf` — each reader on such a text.
* `scan_crlf` — all scans of a source.
* `tokens_crlf` — tokens and the end of a scan do not depend on the way in which lines end.
-/

namespace DocHarvest

namespace Bytes

/-- A text with every line feed written as a carriage return and a line feed. -/
def crlf (s : Bytes) : Bytes :=
  s.flatMap fun b => if b = Byte.lineFeed then [Byte.carriageReturn, Byte.lineFeed] else [b]

/-- A text with every carriage return that a line feed follows left out. -/
def ofCrlf : Bytes → Bytes
  | [] => []
  | Byte.carriageReturn :: Byte.lineFeed :: rest => Byte.lineFeed :: ofCrlf rest
  | b :: rest => b :: ofCrlf rest

/-- A line end of two bytes becomes one of one byte. -/
theorem ofCrlf_lineEnd (s : Bytes) :
    ofCrlf (Byte.carriageReturn :: Byte.lineFeed :: s) = Byte.lineFeed :: ofCrlf s := rfl

/-- Nothing has no line ends. -/
@[simp] theorem crlf_nil : crlf [] = [] := rfl

/-- Line ends are changed in one text after another. -/
@[simp] theorem crlf_append (s t : Bytes) : crlf (s ++ t) = crlf s ++ crlf t := by
  simp [crlf]

/-- A line feed becomes a line end of two bytes. -/
theorem crlf_lineFeed (s : Bytes) :
    crlf (Byte.lineFeed :: s) = Byte.carriageReturn :: Byte.lineFeed :: crlf s := rfl

/-- A byte that is no line feed stays. -/
theorem crlf_cons {b : UInt8} (h : b ≠ Byte.lineFeed) (s : Bytes) :
    crlf (b :: s) = b :: crlf s := by
  simp [crlf, h]

/-- A text without line feeds stays as it is. -/
theorem crlf_of_not_mem {s : Bytes} (h : Byte.lineFeed ∉ s) : crlf s = s := by
  induction s with
  | nil => rfl
  | cons b s ih =>
    rw [List.mem_cons, not_or] at h
    rw [crlf_cons (Ne.symm h.1), ih h.2]

/-- Nothing else becomes nothing. -/
@[simp] theorem crlf_eq_nil {s : Bytes} : crlf s = [] ↔ s = [] := by
  cases s with
  | nil => simp
  | cons b s =>
    by_cases hb : b = Byte.lineFeed
    · simp [hb, crlf_lineFeed]
    · simp [crlf_cons hb]

/-- The number of line feeds stays. -/
@[simp] theorem lineFeeds_crlf (s : Bytes) : lineFeeds (crlf s) = lineFeeds s := by
  have hcr : Byte.carriageReturn ≠ Byte.lineFeed := by decide
  induction s with
  | nil => rfl
  | cons b s ih =>
    unfold lineFeeds at ih ⊢
    by_cases hb : b = Byte.lineFeed
    · rw [hb, crlf_lineFeed, List.count_cons_of_ne hcr, List.count_cons_self,
        List.count_cons_self, ih]
    · rw [crlf_cons hb, List.count_cons_of_ne hb, List.count_cons_of_ne hb, ih]

/-- A text does not get shorter. -/
theorem length_le_crlf (s : Bytes) : s.length ≤ (crlf s).length := by
  induction s with
  | nil => exact Nat.le_refl 0
  | cons b s ih =>
    by_cases hb : b = Byte.lineFeed
    · rw [hb, crlf_lineFeed]
      simp only [List.length_cons]
      omega
    · rw [crlf_cons hb]
      exact Nat.succ_le_succ ih

/-- Two-byte line ends never start with a line feed. -/
theorem head?_crlf_ne (s : Bytes) : (crlf s).head? ≠ some Byte.lineFeed := by
  cases s with
  | nil => simp
  | cons b s =>
    by_cases hb : b = Byte.lineFeed
    · have hcr : Byte.carriageReturn ≠ Byte.lineFeed := by decide
      simpa [hb, crlf_lineFeed] using hcr
    · simpa [crlf_cons hb] using hb

/-- **Nothing is lost**: the line feeds can be had back. -/
@[simp] theorem ofCrlf_crlf (s : Bytes) : ofCrlf (crlf s) = s := by
  induction s with
  | nil => rfl
  | cons b s ih =>
    by_cases hb : b = Byte.lineFeed
    · rw [hb, crlf_lineFeed, ofCrlf_lineEnd, ih]
    · rw [crlf_cons hb, ofCrlf.eq_3, ih]
      intro rest _ hrest
      exact head?_crlf_ne s (hrest ▸ rfl)

/-- Texts stay different when their line ends are changed. -/
theorem crlf_injective {s t : Bytes} (h : crlf s = crlf t) : s = t := by
  rw [← ofCrlf_crlf s, h, ofCrlf_crlf]

/-- A beginning that holds neither byte of a line end is there before and after. -/
theorem prefix_crlf_iff {d s : Bytes} (hlf : Byte.lineFeed ∉ d) (hcr : Byte.carriageReturn ∉ d) :
    d <+: crlf s ↔ d <+: s := by
  induction d generalizing s with
  | nil => simp
  | cons c d ih =>
    rw [List.mem_cons, not_or] at hlf hcr
    cases s with
    | nil => simp
    | cons b s =>
      by_cases hb : b = Byte.lineFeed
      · rw [hb, crlf_lineFeed, List.cons_prefix_cons, List.cons_prefix_cons]
        exact iff_of_false (fun h => hcr.1 h.1.symm) (fun h => hlf.1 h.1.symm)
      · rw [crlf_cons hb, List.cons_prefix_cons, List.cons_prefix_cons, ih hlf.2 hcr.2]

end Bytes

namespace Source

open Bytes (crlf)

/-- A token with two-byte line ends in its text. -/
def Token.crlf (token : Token) : Token :=
  { token with text := Bytes.crlf token.text }

/-- What is found of a literal's end, with two-byte line ends. -/
def Literal.Cut.crlf : Cut → Cut
  | closed body rest => closed (Bytes.crlf body) (Bytes.crlf rest)
  | broken => broken
  | exhausted => exhausted

/-- The beginning of a text with two-byte line ends. -/
def Lexeme.crlf : Lexeme → Lexeme
  | token kind text rest => token kind (Bytes.crlf text) (Bytes.crlf rest)
  | brokenLiteral => brokenLiteral
  | openLiteral long => openLiteral long

/-- A scanner before a text with two-byte line ends. -/
def Scanner.crlf (s : Scanner) : Scanner :=
  { s with rest := Bytes.crlf s.rest }

/-! ### Between tokens -/

/-- Blanks and comments are skipped alike. The carriage return of a line end is a blank, or belongs
to the comment. -/
theorem skipBlanks_crlf (inComment : Bool) (line : Nat) (s : Bytes) :
    skipBlanks inComment line (crlf s) =
      ((skipBlanks inComment line s).1, crlf (skipBlanks inComment line s).2) := by
  induction s generalizing inComment line with
  | nil => rfl
  | cons b s ih =>
    by_cases hb : b = Byte.lineFeed
    · have hreturn : ∀ rest, skipBlanks inComment line (Byte.carriageReturn :: rest) =
          skipBlanks inComment line rest := by
        intro rest
        cases inComment <;> rfl
      rw [hb, Bytes.crlf_lineFeed, hreturn]
      exact ih false (line + 1)
    · rw [Bytes.crlf_cons hb]
      simp only [skipBlanks, hb, if_false, ih]
      split
      · rfl
      · split
        · rfl
        · rw [Bytes.crlf_cons hb]

/-! ### Words -/

/-- A line feed is no part of a name. -/
theorem not_isNameByte_lineFeed : ¬ isNameByte Byte.lineFeed := by decide

/-- A carriage return is no part of a name. -/
theorem not_isNameByte_carriageReturn : ¬ isNameByte Byte.carriageReturn := by decide

/-- Names are taken alike. -/
theorem takeWhile_crlf (s : Bytes) :
    (crlf s).takeWhile isNameByte = s.takeWhile isNameByte := by
  induction s with
  | nil => rfl
  | cons b s ih =>
    by_cases hb : b = Byte.lineFeed
    · rw [hb, Bytes.crlf_lineFeed, List.takeWhile_cons_of_neg not_isNameByte_carriageReturn,
        List.takeWhile_cons_of_neg not_isNameByte_lineFeed]
    · simp only [Bytes.crlf_cons hb, List.takeWhile_cons, ih]

/-- Names are left behind alike. -/
theorem dropWhile_crlf (s : Bytes) :
    (crlf s).dropWhile isNameByte = crlf (s.dropWhile isNameByte) := by
  induction s with
  | nil => rfl
  | cons b s ih =>
    by_cases hb : b = Byte.lineFeed
    · rw [hb, Bytes.crlf_lineFeed, List.dropWhile_cons_of_neg not_isNameByte_carriageReturn,
        List.dropWhile_cons_of_neg not_isNameByte_lineFeed, Bytes.crlf_lineFeed]
    · rw [Bytes.crlf_cons hb, List.dropWhile_cons, List.dropWhile_cons, ih]
      split
      · rfl
      · rw [Bytes.crlf_cons hb]

/-- A word holds no line feed. -/
theorem crlf_takeWhile (s : Bytes) :
    crlf (s.takeWhile isNameByte) = s.takeWhile isNameByte := by
  refine Bytes.crlf_of_not_mem fun hmem => not_isNameByte_lineFeed ?_
  exact List.all_eq_true.mp List.all_takeWhile _ hmem

/-! ### Literals -/

/-- A quote is not a carriage return. -/
theorem ne_carriageReturn_of_isQuote {q : UInt8} (h : isQuote q) : q ≠ Byte.carriageReturn := by
  rintro rfl
  exact absurd h (by decide)

namespace Literal

/-- A line feed is no part of a delimiter. -/
theorem lineFeed_not_mem_delimiter {q : UInt8} (h : isQuote q) (long : Bool) :
    Byte.lineFeed ∉ delimiter q long := by
  have hne := (ne_lineFeed_of_isQuote h).symm
  cases long <;> simp [delimiter, hne]

/-- A carriage return is no part of a delimiter. -/
theorem carriageReturn_not_mem_delimiter {q : UInt8} (h : isQuote q) (long : Bool) :
    Byte.carriageReturn ∉ delimiter q long := by
  have hne := (ne_carriageReturn_of_isQuote h).symm
  cases long <;> simp [delimiter, hne]

/-- Delimiters stand in the same places. -/
theorem delimiter_prefix_crlf {q : UInt8} (h : isQuote q) (long : Bool) (s : Bytes) :
    (delimiter q long).isPrefixOf (crlf s) = (delimiter q long).isPrefixOf s := by
  rw [Bool.eq_iff_iff, List.isPrefixOf_iff_prefix, List.isPrefixOf_iff_prefix]
  exact Bytes.prefix_crlf_iff (lineFeed_not_mem_delimiter h long)
    (carriageReturn_not_mem_delimiter h long)

/-- Line ends are changed in what was cut and in the bytes before it. -/
theorem Cut.crlf_after (unit : Bytes) (c : Cut) :
    (c.after unit).crlf = c.crlf.after (Bytes.crlf unit) := by
  cases c <;> simp [Cut.after, Cut.crlf]

/-- Bytes are put before a cut one after another. -/
theorem Cut.after_after (unit unit' : Bytes) (c : Cut) :
    (c.after unit').after unit = c.after (unit ++ unit') := by
  cases c <;> simp [Cut.after]

/-- A carriage return that nothing protects is a byte of the body. -/
theorem cut_carriageReturn {q : UInt8} (hq : isQuote q) (long : Bool) (rest : Bytes) :
    cut q long (Byte.carriageReturn :: rest) =
      (cut q long rest).after [Byte.carriageReturn] := by
  have hpre : ¬ (delimiter q long).isPrefixOf (Byte.carriageReturn :: rest) := by
    have hne := ne_carriageReturn_of_isQuote hq
    cases long <;> simp [delimiter, hne]
  rw [cut_plain q long rest (by decide), if_neg hpre]
  rfl

/-- **The end of a literal is found at the same place.** -/
theorem cut_crlf {q : UInt8} (hq : isQuote q) (long : Bool) {s : Bytes}
    (h : Byte.carriageReturn ∉ s) : cut q long (crlf s) = (cut q long s).crlf := by
  have hbs : Byte.backslash ≠ Byte.lineFeed := by decide
  fun_induction cut q long s with
  | case1 => rfl
  | case2 => rfl
  | case3 tail => simp at h
  | case4 b tail hb ih =>
    simp only [List.mem_cons, not_or] at h
    rw [Cut.crlf_after, ← ih h.2.2]
    by_cases hlf : b = Byte.lineFeed
    · subst hlf
      exact cut_escapedLineEnd q long (crlf tail)
    · have hunit : ∀ rest, crlf (Byte.backslash :: b :: rest) =
          (Piece.escaped b).bytes ++ crlf rest := fun rest => by
        rw [Bytes.crlf_cons hbs, Bytes.crlf_cons hlf]
        rfl
      have hcut : cut q long ((Piece.escaped b).bytes ++ crlf tail) =
          (cut q long (crlf tail)).after (Piece.escaped b).bytes :=
        cut_escaped q long fun hcr => absurd hcr.symm h.2.1
      rw [← hunit tail, ← List.append_nil (Piece.escaped b).bytes] at hcut
      exact hcut.trans (congrArg (Cut.after · _) (hunit []).symm)
  | case5 b tail h1 h2 h3 hpre =>
    obtain ⟨more, hmore⟩ := List.isPrefixOf_iff_prefix.mp hpre
    have hquotes : crlf (delimiter q long) = delimiter q long :=
      Bytes.crlf_of_not_mem (lineFeed_not_mem_delimiter hq long)
    rw [← hmore, List.drop_left, Bytes.crlf_append, Cut.crlf, hquotes]
    exact cut_written hq (reads_nil long) (closesFirst_nil q long) (crlf more)
  | case6 b tail h1 h2 h3 hpre hline =>
    obtain ⟨rfl, rfl⟩ : b = Byte.lineFeed ∧ long = false := by simpa using hline
    rw [Bytes.crlf_lineFeed, cut_carriageReturn hq, cut_lineFeed hq]
    rfl
  | case7 b tail h1 h2 h3 hpre hline ih =>
    have hb : b ≠ Byte.backslash := ne_backslash_of_single h1 h3
    rw [Cut.crlf_after, ← ih fun hmem => h (List.mem_cons_of_mem b hmem)]
    by_cases hlf : b = Byte.lineFeed
    · subst hlf
      obtain rfl : long = true := by simpa using hline
      rw [Bytes.crlf_lineFeed, cut_carriageReturn hq, cut_lineFeed hq, if_pos rfl,
        Cut.after_after]
      rfl
    · rw [← delimiter_prefix_crlf hq, Bytes.crlf_cons hlf] at hpre
      rw [Bytes.crlf_cons hlf, cut_plain q long (crlf tail) hb, if_neg hpre, if_neg hline,
        Bytes.crlf_cons hlf, Bytes.crlf_nil]

/-- The quotes that open a literal are the same. -/
theorem Opens.crlf {mark : Bytes} {q : UInt8} {long : Bool} {after : Bytes}
    (h : Opens mark q long after) : Opens mark q long (Bytes.crlf after) := by
  refine ⟨h.isMark, h.isQuote, fun hlong hpre => h.tripled hlong ?_⟩
  have hlf := (ne_lineFeed_of_isQuote h.isQuote).symm
  have hcr := (ne_carriageReturn_of_isQuote h.isQuote).symm
  exact (Bytes.prefix_crlf_iff (by simp [hlf]) (by simp [hcr])).mp hpre

end Literal

namespace Lexeme

/-- **Literals are cut alike.** -/
theorem literal_crlf {mark : Bytes} {q : UInt8} (hm : mark = [] ∨ isLiteralMark mark)
    (hq : isQuote q) {rest : Bytes} (h : Byte.carriageReturn ∉ rest) :
    literal mark q (Bytes.crlf rest) = (literal mark q rest).crlf := by
  obtain ⟨long, after, hrest, hopens⟩ := Literal.exists_opens hm hq rest
  have hquotes : Bytes.crlf (Literal.delimiter q long) = Literal.delimiter q long :=
    Bytes.crlf_of_not_mem (Literal.lineFeed_not_mem_delimiter hq long)
  have hmark : Bytes.crlf mark = mark := by
    refine Bytes.crlf_of_not_mem fun hmem => not_isNameByte_lineFeed ?_
    exact (hopens.maximalRun []).inside _ hmem
  have hrest' : q :: Bytes.crlf rest = Literal.delimiter q long ++ Bytes.crlf after := by
    rw [← Bytes.crlf_cons (ne_lineFeed_of_isQuote hq), hrest, Bytes.crlf_append, hquotes]
  have hafter : Byte.carriageReturn ∉ after := by
    intro hmem
    have hmem' : Byte.carriageReturn ∈ q :: rest := hrest ▸ List.mem_append_right _ hmem
    rcases List.mem_cons.mp hmem' with hcr | hcr
    · exact ne_carriageReturn_of_isQuote hq hcr.symm
    · exact h hcr
  rw [literal_eq hopens.crlf hrest', literal_eq hopens hrest, Literal.cut_crlf hq long hafter]
  cases Literal.cut q long after <;> simp [Literal.Cut.crlf, crlf, hmark, hquotes]

/-- **The first token is read in the same way.** -/
theorem first_crlf {b : UInt8} {tail : Bytes} (hb : b ≠ Byte.lineFeed)
    (h : Byte.carriageReturn ∉ tail) : first b (Bytes.crlf tail) = (first b tail).crlf := by
  by_cases hquote : isQuote b
  · rw [first_eq_literal (.inl rfl) hquote rfl, first_eq_literal (.inl rfl) hquote rfl]
    exact literal_crlf (.inl rfl) hquote h
  have hword : (b :: Bytes.crlf tail).takeWhile isNameByte = (b :: tail).takeWhile isNameByte := by
    rw [← Bytes.crlf_cons hb, takeWhile_crlf]
  have hafter : (b :: Bytes.crlf tail).dropWhile isNameByte =
      Bytes.crlf ((b :: tail).dropWhile isNameByte) := by
    rw [← Bytes.crlf_cons hb, dropWhile_crlf]
  have hkept := crlf_takeWhile (b :: tail)
  have htail : isNameStart b → Byte.carriageReturn ∉ (b :: tail).dropWhile isNameByte := by
    intro hstart hmem
    rw [List.dropWhile_cons_of_pos (isNameByte_of_isNameStart hstart)] at hmem
    exact h ((List.dropWhile_sublist _).subset hmem)
  simp only [first, hword, hafter, hquote, if_false, Bool.false_eq_true]
  generalize (b :: tail).takeWhile isNameByte = word at hkept ⊢
  generalize (b :: tail).dropWhile isNameByte = after at htail ⊢
  by_cases hstart : isNameStart b
  · simp only [hstart, if_true]
    rcases after with - | ⟨q, after⟩
    · simp only [Bytes.crlf_nil, crlf, hkept]
    by_cases hlf : q = Byte.lineFeed
    · subst hlf
      have hreturn : isQuote Byte.carriageReturn = false := by decide
      have hfeed : isQuote Byte.lineFeed = false := by decide
      simp only [Bytes.crlf_lineFeed, hreturn, hfeed, Bool.false_and, Bool.false_eq_true, if_false,
        crlf, hkept]
    · rw [Bytes.crlf_cons hlf]
      dsimp only
      by_cases hmark : (isQuote q && isLiteralMark word)
      · obtain ⟨hq, hm⟩ := Bool.and_eq_true_iff.mp hmark
        rw [if_pos hmark, if_pos hmark]
        exact literal_crlf (.inr hm) hq fun hmem => htail hstart (List.mem_cons_of_mem q hmem)
      · rw [if_neg hmark, if_neg hmark, crlf, hkept, Bytes.crlf_cons hlf]
  by_cases hdigit : Byte.isDigit b
  · simp only [hstart, hdigit, if_true, if_false, Bool.false_eq_true, crlf, hkept]
  · simp only [hstart, hdigit, if_false, Bool.false_eq_true, crlf, Bytes.crlf_cons hb,
      Bytes.crlf_nil]

end Lexeme

/-! ### Scans -/

/-- Brackets open and close alike. -/
theorem bracketDepth_crlf (depth : Nat) (kind : Kind) (text : Bytes) :
    bracketDepth depth kind (crlf text) = bracketDepth depth kind text := by
  have hbracket : ∀ s, crlf (utf8 s) = utf8 s → (crlf text = utf8 s ↔ text = utf8 s) := by
    intro s hs
    exact ⟨fun h => Bytes.crlf_injective (h.trans hs.symm), fun h => h ▸ hs⟩
  simp only [bracketDepth, hbracket "(" rfl, hbracket "[" rfl, hbracket "\x7b" rfl,
    hbracket ")" rfl, hbracket "]" rfl, hbracket "\x7d" rfl]

namespace Scanner

/-- The end of the text is met alike. -/
theorem atEnd_crlf (ending : Ending) {s : Scanner} (h : s.rest = []) :
    s.atEnd ending = ((s.atEnd ending).1.map Token.crlf, (s.atEnd ending).2.crlf) := by
  obtain ⟨rest, line, depth, e?⟩ := s
  dsimp only at h
  subst h
  cases ending with
  | failure cause => rfl
  | complete =>
    by_cases hdepth : 0 < depth
    · simp only [atEnd, hdepth, if_true]
      rfl
    · simp only [atEnd, hdepth, if_false]
      rfl

/-- **One scan.** It hands out the same token, and leaves the same scanner behind. -/
theorem next_crlf (ending : Ending) {s : Scanner} (h : Byte.carriageReturn ∉ s.rest) :
    s.crlf.next ending = ((s.next ending).1.map Token.crlf, (s.next ending).2.crlf) := by
  cases herror : s.error? with
  | some e =>
    rw [s.next_of_failed ending herror, s.crlf.next_of_failed ending herror]
    rfl
  | none =>
    have herror' : s.crlf.error? = none := herror
    obtain ⟨gap, hgap⟩ := exists_gap_skipBlanks s.line s.rest
    rw [next, next, herror, herror']
    dsimp only [crlf]
    rw [skipBlanks_crlf]
    generalize skipBlanks false s.line s.rest = place at hgap ⊢
    obtain ⟨line, rest⟩ := place
    rcases rest with - | ⟨b, tail⟩
    · exact atEnd_crlf ending (s := ⟨[], line, s.depth, none⟩) rfl
    have hlf : b ≠ Byte.lineFeed := by
      rintro rfl
      exact (hgap.stops Byte.lineFeed rfl).1 (by decide)
    have htail : Byte.carriageReturn ∉ tail := by
      intro hmem
      rw [hgap.cuts.eq_append] at h
      exact h (List.mem_append_right _ (List.mem_cons_of_mem b hmem))
    dsimp only
    rw [Bytes.crlf_cons hlf]
    dsimp only
    rw [Lexeme.first_crlf hlf htail, ← Bytes.crlf_cons hlf]
    cases Lexeme.first b tail with
    | brokenLiteral => rfl
    | openLiteral long => rfl
    | token kind text rest =>
      simp only [Lexeme.crlf, Bytes.lineFeeds_crlf, bracketDepth_crlf]
      cases ending with
      | complete => rfl
      | failure cause =>
        rcases rest with - | ⟨c, rest⟩
        · cases decide (kind = .name || kind = .number) <;> rfl
        · obtain ⟨d, more, hmore⟩ : ∃ d more, Bytes.crlf (c :: rest) = d :: more :=
            List.exists_cons_of_ne_nil (by simp)
          simp only [hmore]
          rw [← hmore]
          rfl

/-- What a scan leaves to read has been there before. -/
theorem mem_next_rest {ending : Ending} {s : Scanner} {b : UInt8}
    (h : b ∈ (s.next ending).2.rest) : b ∈ s.rest := by
  cases herror : s.error? with
  | some e => rwa [s.next_of_failed ending herror] at h
  | none =>
    obtain ⟨gap, line, rest, hgap, hnext⟩ := s.next_cases ending herror
    rw [hgap.cuts.eq_append]
    rcases hnext with ⟨e, kind, more, -, -, rfl, hnext⟩ | ⟨outcome, -, hnext⟩
    · rw [hnext] at h
      exact List.mem_append_right _ (List.mem_append_right _ h)
    · rw [hnext] at h
      exact List.mem_append_right _ h

end Scanner

/-- **The run.** Repeated scans hand out the same tokens and end in the same way. -/
theorem scanFrom_crlf (ending : Ending) (fuel : Nat) {s : Scanner}
    (h : Byte.carriageReturn ∉ s.rest) :
    scanFrom ending fuel s.crlf =
      ((scanFrom ending fuel s).1.map Token.crlf, (scanFrom ending fuel s).2.map Token.crlf) := by
  induction fuel generalizing s with
  | zero =>
    rw [scanFrom, scanFrom, Scanner.next_crlf ending h]
    rfl
  | succ fuel ih =>
    have hrest : Byte.carriageReturn ∉ (s.next ending).2.rest := fun hmem =>
      h (Scanner.mem_next_rest hmem)
    rw [scanFrom, scanFrom, Scanner.next_crlf ending h]
    rcases hnext : s.next ending with ⟨outcome, after⟩
    rw [hnext] at hrest
    cases outcome with
    | error e => rfl
    | ok token =>
      have hkind : token.crlf.kind = token.kind := rfl
      dsimp only [Except.map]
      rw [hkind, ih hrest]
      split <;> rfl

/-- Scanning ends in the same way: the token that marks the end of the file has no text. -/
theorem scan_snd_crlf (source : Source) : source.scan.2.map Token.crlf = source.scan.2 := by
  obtain ⟨es, rest, outcome, -, hscan, hhalts⟩ := scan_halts source
  rw [hscan]
  cases outcome with
  | error e => rfl
  | ok token =>
    cases hhalts
    rfl

/-- All scans of a source with two-byte line ends. -/
theorem scan_crlf (source : Source) (h : Byte.carriageReturn ∉ source.bytes) :
    scan { source with bytes := crlf source.bytes } =
      (source.scan.1.map Token.crlf, source.scan.2) := by
  have hfuel : scanFrom source.ending (crlf source.bytes).length source.scanner = source.scan :=
    scanFrom_of_le source.ending rfl (Nat.le_refl _) (Bytes.length_le_crlf source.bytes)
  have hrun := scanFrom_crlf source.ending (crlf source.bytes).length (s := source.scanner) h
  rw [hfuel, scan_snd_crlf] at hrun
  exact hrun

/-- **Scanning does not depend on the way in which lines end.** When every line feed of a source
without carriage returns is written as a carriage return and a line feed, there are as many tokens,
of the same kinds and on the same lines, each text changes as the source does, and scanning ends in
the same way, with the same token or the same error. -/
theorem tokens_crlf (name : Bytes) {s : Bytes} (ending : Ending)
    (h : Byte.carriageReturn ∉ s) :
    (scan ⟨name, crlf s, ending⟩).1.length = (scan ⟨name, s, ending⟩).1.length ∧
    (scan ⟨name, crlf s, ending⟩).1.map Token.kind =
      (scan ⟨name, s, ending⟩).1.map Token.kind ∧
    (scan ⟨name, crlf s, ending⟩).1.map Token.line =
      (scan ⟨name, s, ending⟩).1.map Token.line ∧
    (scan ⟨name, crlf s, ending⟩).1.map Token.text =
      (scan ⟨name, s, ending⟩).1.map (fun token => crlf token.text) ∧
    (scan ⟨name, crlf s, ending⟩).2 = (scan ⟨name, s, ending⟩).2 := by
  have hscan : scan ⟨name, crlf s, ending⟩ =
      ((scan ⟨name, s, ending⟩).1.map Token.crlf, (scan ⟨name, s, ending⟩).2) :=
    scan_crlf ⟨name, s, ending⟩ h
  rw [hscan]
  refine ⟨List.length_map _, ?_, ?_, ?_, rfl⟩ <;> exact List.map_map

/-- A line that goes on between tokens and one that goes on in a literal, and a comment. -/
theorem tokens_crlf_continued :
    (scan ⟨utf8 "a.py", crlf (utf8 "x\\\n'a\\\nb'#c\ny"), .complete⟩).1.map Token.text =
      [utf8 "x", utf8 "'a\\\r\nb'", utf8 "y"] ∧
    (scan ⟨utf8 "a.py", crlf (utf8 "x\\\n'a\\\nb'#c\ny"), .complete⟩).1.map Token.line =
      [1, 2, 4] := by
  obtain ⟨-, -, hlines, htexts, -⟩ :=
    @tokens_crlf (utf8 "a.py") (utf8 "x\\\n'a\\\nb'#c\ny") .complete (by decide)
  exact ⟨htexts.trans rfl, hlines.trans rfl⟩

end Source

end DocHarvest
