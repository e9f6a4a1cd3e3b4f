import DocHarvest.Proofs.Yaml.Quotes
import DocHarvest.Proofs.Yaml.Blocks
import DocHarvest.Proofs.Yaml.Fetching

/-!
# Written Values

A text is written in the style that its shape calls for, and the shape is what reading the style
back takes: a plain text holds nothing that ends it early, a text in single quotes no gap that
would be folded. So every value is fetched as the text it was written for, but for the literal
blocks that lose their first character or cannot be read at all.

## Main definitions

* `Yaml.Refused` — the texts whose literal block is refused.

## Main results

* `Yaml.isPlainLine_of_style`, `Yaml.isFolded_of_style`, `Yaml.keepsBreaks_of_style` — what the
  style of a text says about it.
* `Yaml.isClean_written` — a written value is made of characters that are decoded as they are.
* `Yaml.readsValue_written` — a written value is fetched as the text that is read back.
-/

namespace DocHarvest.Yaml

variable {s t : Spot} {v : List Char}

/-! ### What styles say -/

/-- The style of a text, and what it says about the text's shape. -/
theorem style_cases (v : List Char) :
    style v = .doubleQuoted ∨
    style v = .literal ∧ '\n' ∈ v ∧ (shape v).special = false ∨
    style v = .singleQuoted ∧ '\n' ∉ v ∧ (shape v).breakSpace = false ∧
      (shape v).spaceBreak = false ∧ (shape v).tab = false ∧ (shape v).special = false ∨
    style v = .plain ∧ looksOtherwise v = false ∧ (shape v).edge = false ∧ (shape v).tab = false ∧
      (shape v).special = false ∧ (shape v).lineBreak = false ∧ (shape v).indicator = false := by
  simp only [style, quotedStyle]
  split
  · rename_i hfeed
    split
    · exact .inl rfl
    · rename_i hshape
      simp only [Bool.or_eq_true, not_or, Bool.not_eq_true] at hshape
      exact .inr (.inl ⟨rfl, by simpa using hfeed, hshape.2⟩)
  · rename_i hfeed
    split
    · exact .inl rfl
    · rename_i hlooks
      split
      · split
        · exact .inl rfl
        · rename_i hshape
          simp only [Bool.or_eq_true, not_or, Bool.not_eq_true] at hshape
          obtain ⟨⟨⟨hbreakSpace, hspaceBreak⟩, htab⟩, hspecial⟩ := hshape
          exact .inr (.inr (.inl
            ⟨rfl, by simpa using hfeed, hbreakSpace, hspaceBreak, htab, hspecial⟩))
      · rename_i hshape
        simp only [Bool.or_eq_true, not_or, Bool.not_eq_true] at hshape hlooks
        obtain ⟨⟨⟨⟨⟨⟨hedge, -⟩, -⟩, htab⟩, hspecial⟩, hbreak⟩, hindicator⟩ := hshape
        exact .inr (.inr (.inr ⟨rfl, hlooks, hedge, htab, hspecial, hbreak, hindicator⟩))

/-- Line breaks that are written as they are, are read as they are. -/
theorem readBreak_of_not_special (h : (shape v).special = false) {c : Char} (hc : c ∈ v)
    (hbreak : isBreak c = true) : c ≠ '\r' ∧ readBreak c = c := by
  have hplain := List.any_eq_false.mp h c hc
  obtain rfl | rfl | rfl | rfl | rfl := isBreak_cases hbreak
  · exact ⟨by decide, rfl⟩
  · exact absurd hplain (by decide)
  · exact absurd hplain (by decide)
  · exact ⟨by decide, rfl⟩
  · exact ⟨by decide, rfl⟩

/-- A text that is written as a literal block keeps its line breaks there. -/
theorem keepsBreaks_of_style (h : style v = .literal) : KeepsBreaks v ∧ v ≠ [] := by
  obtain h' | ⟨-, hfeed, hspecial⟩ | ⟨h', -⟩ | ⟨h', -⟩ := style_cases v
  · cases h.symm.trans h'
  · exact ⟨fun c hc => readBreak_of_not_special hspecial hc, List.ne_nil_of_mem hfeed⟩
  · cases h.symm.trans h'
  · cases h.symm.trans h'

/-- A text that is written between single quotes is folded. -/
theorem isFolded_of_style (h : style v = .singleQuoted) : IsFolded v := by
  obtain h' | ⟨h', -⟩ | ⟨-, hfeed, hbreakSpace, hspaceBreak, htab, hspecial⟩ | ⟨h', -⟩ :=
    style_cases v
  · cases h.symm.trans h'
  · cases h.symm.trans h'
  · refine ⟨?_, fun c hc hbreak => ⟨?_, readBreak_of_not_special hspecial hc hbreak⟩, hbreakSpace,
      hspaceBreak⟩
    · rintro c hc rfl
      simp only [shape, List.contains_eq_mem, decide_eq_false_iff_not] at htab
      exact htab hc
    · rintro rfl
      exact hfeed hc
  · cases h.symm.trans h'

/-- A plain text can stand on a line, and is taken for nothing else. -/
theorem isPlainLine_of_style (h : style v = .plain) :
    IsPlainLine v ∧ startsWithIndicator v = false ∧ looksOtherwise v = false := by
  obtain h' | ⟨h', -⟩ | ⟨h', -⟩ | ⟨-, hlooks, hedge, htab, -, hbreak, hindicator⟩ := style_cases v
  · cases h.symm.trans h'
  · cases h.symm.trans h'
  · cases h.symm.trans h'
  · cases v with
    | nil => exact absurd hlooks (by decide)
    | cons c rest =>
      simp only [shape, Bool.or_eq_false_iff] at hedge hindicator
      refine ⟨⟨?_, ?_, by simp, ?_, ?_⟩, hindicator.1, hlooks⟩
      · have hstart := hindicator.1
        simp only [startsWithIndicator, Bool.or_eq_false_iff, Bool.and_eq_false_iff] at hstart
        have hhash : decide (c = '#') = false := by
          have := hstart.1.2
          simp only [List.contains_cons, Bool.or_eq_false_iff] at this
          simpa using this.1
        have hcolon : (decide (c = ':') && (rest.isEmpty || (rest.head?.map isBlank).getD false)) =
            false := by
          obtain h | h := hstart.2
          · simp [h.1.2]
          · simp [h]
        simp only [holdsIndicator, hhash, hcolon, Bool.false_and, Bool.false_or]
        simpa using hindicator.2
      · intro d hd
        refine ⟨by simpa using List.any_eq_false.mp hbreak d hd, ?_⟩
        rintro rfl
        simp only [shape, List.contains_eq_mem, decide_eq_false_iff_not] at htab
        exact htab hd
      · intro hhead
        simp [Option.some.inj hhead] at hedge
      · intro hlast
        simp [hlast] at hedge

/-- A plain text starts as plain text. -/
theorem startsPlain_of_style {c : Char} {rest : List Char} (h : style (c :: rest) = .plain)
    (after : List Char) :
    Scan.startsPlain false c (rest ++ '\n' :: after).head? = true ∧
      (c = '-' → atGap (rest ++ '\n' :: after).head? = false) := by
  obtain ⟨hline, hindicator, -⟩ := isPlainLine_of_style h
  simp only [startsWithIndicator, Bool.or_eq_false_iff] at hindicator
  have hgap : c = '?' ∨ c = ':' ∨ c = '-' → atGap (rest ++ '\n' :: after).head? = false := by
    intro hc
    have hapart : (rest.isEmpty || (rest.head?.map isBlank).getD false) = false := by
      rcases hc with rfl | rfl | rfl <;> simpa using hindicator.2
    cases rest with
    | nil => cases hapart
    | cons d rest => simpa [atGap, (hline.line d (by simp)).1] using hapart
  refine ⟨?_, fun hc => hgap (.inr (.inr hc))⟩
  unfold Scan.startsPlain
  split
  · rename_i hc
    have hnone := hgap (.inr (.inr hc))
    cases hhead : (rest ++ '\n' :: after).head? with
    | none => rfl
    | some d =>
      rw [hhead] at hnone
      simp only [atGap, Option.map_some, Option.getD_some, Bool.or_eq_false_iff] at hnone
      simp [atBlank, hnone.1]
  · split
    · rename_i hc
      simp only [Bool.or_eq_true, decide_eq_true_eq] at hc
      rw [hgap (hc.imp id .inl)]
      rfl
    · have hblank : isBlank c = false := by
        have hspace := hline.starts
        simp only [List.head?_cons, ne_eq, Option.some.injEq] at hspace
        simp [isBlank, hspace, (hline.line c (by simp)).2]
      have hsame : ∀ d ∈ [',', '[', ']', '\x7b', '\x7d', '#', '&', '*', '!', '|', '>', '\'', '"',
          '%', '@', '\x60'], d ∈ ['#', ',', '[', ']', '\x7b', '\x7d', '&', '*', '!', '|', '>', '\'',
          '"', '%', '@', '\x60'] := by simp
      have hlist := hindicator.1.2
      rw [List.contains_eq_mem, decide_eq_false_iff_not] at hlist
      rw [hblank, (hline.line c (by simp)).1, List.contains_eq_mem,
        decide_eq_false fun hmem => hlist (hsame c hmem)]
      rfl

/-- The texts whose literal block is refused, since it starts with a tab. -/
def Refused (v : List Char) : Prop :=
  style v = .literal ∧ v.head? = some '\t'

instance (v : List Char) : Decidable (Refused v) :=
  inferInstanceAs (Decidable (_ ∧ _))

/-- A written value starts on the line of its key. -/
theorem exists_written_eq (v : List Char) :
    ∃ c rest, written 2 v = c :: rest ∧ isBlank c = false ∧ isBreak c = false ∧ c ≠ '#' := by
  cases hstyle : style v with
  | plain =>
    obtain ⟨hline, -, -⟩ := isPlainLine_of_style hstyle
    obtain ⟨c, rest, rfl⟩ := List.exists_cons_of_ne_nil hline.ne_nil
    have hc := hline.line c List.mem_cons_self
    have hspace : c ≠ ' ' := by simpa using hline.starts
    exact ⟨c, rest, by rw [written, hstyle], by simp [isBlank, hspace, hc.2], hc.1,
      by simpa using hline.head_ne_hash⟩
  | singleQuoted =>
    exact ⟨'\'', _, by rw [written, hstyle, singleQuoted]; rfl, rfl, rfl, by decide⟩
  | doubleQuoted =>
    exact ⟨'"', _, by rw [written, hstyle, doubleQuoted]; rfl, rfl, rfl, by decide⟩
  | literal =>
    exact ⟨'|', _, by rw [written, hstyle, literalBlock]; rfl, rfl, rfl, by decide⟩

/-- A line that was ended ends in a line break. -/
theorem exists_endLine_eq (w : List Char) : ∃ x b, endLine w = x ++ [b] ∧ isBreak b = true := by
  unfold endLine
  split
  · rename_i h
    cases hlast : w.getLast? with
    | none => simp [hlast] at h
    | some b =>
      obtain ⟨x, rfl⟩ := List.getLast?_eq_some_iff.mp hlast
      exact ⟨x, b, rfl, by simpa using h⟩
  · exact ⟨w, '\n', rfl, rfl⟩

/-- A line that does not end in a line break gets one. -/
theorem endLine_of_not_break {x : List Char} {c : Char} (hc : isBreak c = false) :
    endLine (x ++ [c]) = x ++ [c] ++ ['\n'] := by
  simp [endLine, hc]

/-! ### The characters of written values -/

/-- Characters that are decoded as they are, wherever they stand in a file. -/
def isClean (c : Char) : Bool :=
  isAllowed c && c ≠ byteOrderMark

/-- Plain characters are clean. -/
theorem isClean_of_isPlain {c : Char} (h : isPlain c = true) : isClean c = true := by
  have hmark : c ≠ byteOrderMark := by
    rintro rfl
    cases h
  simp only [isPlain, Bool.or_eq_true, Bool.and_eq_true, decide_eq_true_eq] at h
  simp only [isClean, isAllowed, Bool.or_eq_true, Bool.and_eq_true, decide_eq_true_eq]
  exact ⟨by omega, hmark⟩

/-- A text without special characters is clean. -/
theorem isClean_of_not_special (h : (shape v).special = false) {c : Char} (hc : c ∈ v) :
    isClean c = true := by
  have hc := List.any_eq_false.mp h c hc
  simp only [Bool.and_eq_true, Bool.not_eq_true', decide_eq_true_eq, not_and,
    Classical.not_not] at hc
  by_cases hplain : isPlain c = true
  · exact isClean_of_isPlain hplain
  · rw [hc (by simpa using hplain)]
    rfl

/-- What a character is escaped as is clean. -/
theorem isClean_escaped {always : Bool} {c d : Char} (hd : d ∈ escaped always c) :
    isClean d = true := by
  have hletter : ∀ {x : Char}, isClean x = true → d ∈ [x] → isClean d = true := by
    intro x hx hd
    rwa [List.mem_singleton.mp hd]
  have hcode : ∀ {x : Char} {width : Nat}, isClean x = true → d ∈ x :: upperHex width c.toNat →
      isClean d = true := by
    intro x width hx hd
    obtain rfl | hd := List.mem_cons.mp hd
    · exact hx
    · obtain ⟨digit, hdigit, rfl⟩ := exists_digit_of_mem_upperHex hd
      exact (by decide : ∀ d < 16, isClean (Nat.digitChar d).toUpper = true) digit hdigit
  unfold escaped at hd
  split at hd
  · rename_i hself
    simp only [Bool.and_eq_true] at hself
    exact hletter (isClean_of_isPlain hself.1.1.1.2) hd
  · obtain rfl | hd := List.mem_cons.mp hd
    · rfl
    split at hd
    iterate 15 · exact hletter rfl hd
    split at hd
    · exact hcode rfl hd
    · split at hd <;> exact hcode rfl hd

/-- Indenting lines adds nothing but spaces. -/
theorem mem_indentLines {level : Nat} {fresh : Bool} {c : Char}
    (hc : c ∈ indentLines level fresh v) :
    c ∈ v ∨ c = ' ' := by
  induction v generalizing fresh with
  | nil => cases hc
  | cons d v ih =>
    unfold indentLines at hc
    split at hc
    · obtain rfl | hc := List.mem_cons.mp hc
      · exact .inl List.mem_cons_self
      · exact (ih hc).imp_left (List.mem_cons_of_mem _)
    · obtain hc | hc := List.mem_append.mp hc
      · split at hc
        · exact .inr (List.eq_of_mem_replicate hc)
        · cases hc
      · obtain rfl | hc := List.mem_cons.mp hc
        · exact .inl List.mem_cons_self
        · exact (ih hc).imp_left (List.mem_cons_of_mem _)

/-- A clean text is clean when its lines are indented. -/
theorem isClean_indentLines {level : Nat} {fresh : Bool} {c : Char}
    (hv : ∀ d ∈ v, isClean d = true) (hc : c ∈ indentLines level fresh v) : isClean c = true := by
  obtain hc | rfl := mem_indentLines hc
  · exact hv c hc
  · rfl

/-- A clean text is clean between single quotes. -/
theorem isClean_singleQuoted {level : Nat} {c : Char} (hv : ∀ d ∈ v, isClean d = true)
    (hc : c ∈ singleQuoted level v) : isClean c = true := by
  have htwice : ∀ d ∈ v.flatMap quoteTwice, isClean d = true := by
    intro d hd
    obtain ⟨e, he, hd⟩ := List.mem_flatMap.mp hd
    unfold quoteTwice at hd
    split at hd
    · obtain rfl : d = '\'' := by simpa using hd
      rfl
    · rw [List.mem_singleton.mp hd]
      exact hv e he
  rw [singleQuoted_eq, List.cons_append, List.mem_cons, List.mem_append, List.mem_singleton] at hc
  obtain rfl | hc | rfl := hc
  · rfl
  · exact isClean_indentLines htwice hc
  · rfl

/-- A clean text is clean as a literal block. -/
theorem isClean_literalBlock {level : Nat} {c : Char} (hv : ∀ d ∈ v, isClean d = true)
    (hc : c ∈ literalBlock level v) : isClean c = true := by
  have hindentation : ∀ d ∈ indentationMark v, isClean d = true := by
    rw [indentationMark_eq]
    split <;> simp [show isClean '4' = true from rfl]
  have hchomping : ∀ d ∈ chompingMark v, isClean d = true := by
    have hminus : isClean '-' = true := rfl
    have hplus : isClean '+' = true := rfl
    by_cases hne : v = []
    · simp [hne, chompingMark, hminus]
    · obtain ⟨chomping, hmark, -⟩ := exists_chomping hne
      rw [hmark]
      cases chomping <;> simp [Chomping.mark, hminus, hplus]
  simp only [literalBlock, List.cons_append, List.mem_cons, List.mem_append, or_assoc] at hc
  obtain rfl | hc | hc | rfl | hc := hc
  · rfl
  · exact hindentation c hc
  · exact hchomping c hc
  · rfl
  · exact isClean_indentLines hv hc

/-- **A written value** is made of clean characters. -/
theorem isClean_written {c : Char} (hc : c ∈ written 2 v) : isClean c = true := by
  unfold written at hc
  obtain hstyle | ⟨hstyle, -, hspecial⟩ | ⟨hstyle, -, -, -, -, hspecial⟩ |
    ⟨hstyle, -, -, -, hspecial, -⟩ := style_cases v
  all_goals simp only [hstyle] at hc
  · unfold doubleQuoted at hc
    obtain hc | hc := List.mem_append.mp hc
    · obtain rfl | hc := List.mem_cons.mp hc
      · rfl
      · obtain ⟨d, -, hc⟩ := List.mem_flatMap.mp hc
        exact isClean_escaped hc
    · rw [List.mem_singleton.mp hc]
      rfl
  · exact isClean_literalBlock (fun d => isClean_of_not_special hspecial) hc
  · exact isClean_singleQuoted (fun d => isClean_of_not_special hspecial) hc
  · exact isClean_of_not_special hspecial hc

/-! ### Fetching values -/

section Fetching

variable {stage : Stage} {columns : Nat} {next : List Char}

/-- A scalar behind the space after a colon. -/
theorem fetches_scalar {ch : Char} {after text : List Char} {plain keyAllowed : Bool} {u : Spot}
    (hrest : s.rest = ' ' :: ch :: after) (hblank : isBlank ch = false)
    (hbreak : isBreak ch = false) (hhash : ch ≠ '#') (hcolumn : stage.indent ≤ s.column)
    (hfetch : ∀ c : Cursor, c.At (s.pass [' ']) → ∃ c', (stage.scan c).fetchAt ch =
      some ((stage.emit (.scalar text plain) keyAllowed).scan c') ∧ c'.At u)
    (hcomment : Gives skipLineComment u () u) :
    Fetches stage s (stage.emit (.scalar text plain) keyAllowed) u := by
  have hskip : Gives (skipToToken false (s.total + 1) stage.keyAllowed) s stage.keyAllowed
      (s.pass [' ']) :=
    gives_skipToToken_here (k := 1) hrest (by simp [hblank, hbreak, hhash])
  have hcolumn' : (s.pass [' ']).column = s.column + 1 := (Spot.pass_line (by simp [isBreak])).1
  exact fetches_of_fetchAt hskip (Spot.rest_pass_cons hrest) (.inl (by omega))
    (closeBlocks_of_le (by omega) _ _) hfetch (by simp [Stage.emit]) hcomment

/-- A value is fetched as a text, and the next token stands at a spot. -/
def ReadsValue (stage : Stage) (s : Spot) (text : List Char) (plain : Bool) (u : Spot) : Prop :=
  ∃ t keyAllowed, Fetches stage s (stage.emit (.scalar text plain) keyAllowed) t ∧
    Gives (skipToToken false (t.total + 1) keyAllowed) t true u

/-- The next token stands where a value has been read to. -/
theorem Onset.gives_skipToToken (honset : Onset columns next) (hrest : t.rest = next)
    (keyAllowed : Bool) : Gives (skipToToken false (t.total + 1) keyAllowed) t keyAllowed t :=
  gives_skipToToken_here (k := 0) hrest honset.head

/-- A value that is written plainly is read back. -/
theorem readsValue_plain (hv : style v = .plain) (honset : Onset columns next)
    (hcolumns : columns ≤ stage.indent) (hcolumn : stage.indent ≤ s.column)
    (hallowed : stage.keyAllowed = false)
    (hrest : s.rest = ' ' :: (v ++ ('\n' :: List.replicate columns ' ' ++ next))) :
    ReadsValue stage s v true (s.pass (' ' :: (v ++ '\n' :: List.replicate columns ' '))) := by
  obtain ⟨hline, -, -⟩ := isPlainLine_of_style hv
  have hvalue := Spot.rest_pass_cons hrest
  have hplain : Gives (readPlain false stage.indent) (s.pass [' ']) ⟨v, true⟩ _ :=
    gives_readPlain_line hline honset hcolumns
      (by rw [(Spot.pass_line (by simp [isBreak])).1]; simp; omega) hvalue
  obtain ⟨c, v, rfl⟩ := List.exists_cons_of_ne_nil hline.ne_nil
  obtain ⟨hstarts, hdash⟩ := startsPlain_of_style hv (List.replicate columns ' ' ++ next)
  have hc := hline.line c List.mem_cons_self
  have hspace : c ≠ ' ' := by simpa using hline.starts
  have hhash : c ≠ '#' := by simpa using hline.head_ne_hash
  have hblank : isBlank c = false := by simp [isBlank, hspace, hc.2]
  refine ⟨_, true, fetches_scalar hrest hblank hc.1 hhash hcolumn ?_ ?_,
    honset.gives_skipToToken ?_ true⟩
  · intro cursor hcursor
    have hpeek : (stage.scan cursor).cursor.peek? 1 =
        (v ++ '\n' :: (List.replicate columns ' ' ++ next)).head? := by
      show cursor.peek? 1 = _
      rw [hcursor.peek?, hvalue, List.cons_append, List.getElem?_cons_succ,
        ← List.head?_eq_getElem?, List.cons_append]
    rw [fetchAt_plain rfl (hpeek ▸ hstarts) (hpeek ▸ hdash)]
    exact Stage.fetchPlain_scan hcursor (by simp [Scan.saveKey, Stage.scan, hallowed]) hplain
  · exact gives_skipLineComment (.inl (Spot.pass_indent _ (c :: v) rfl columns).2)
  · exact Spot.rest_pass (by rw [hrest]; simp)

/-- A value between quotes is read back when the quoted text is. -/
theorem readsValue_quoted (double : Bool) {quoted : List Char}
    (hquote : quoted.head? = some (if double then '"' else '\'')) (honset : Onset columns next)
    (hcolumn : stage.indent ≤ s.column) (hallowed : stage.keyAllowed = false)
    (hrest : s.rest = ' ' :: (quoted ++ '\n' :: (List.replicate columns ' ' ++ next)))
    (hread : Gives (readQuoted double) (s.pass [' ']) v ((s.pass [' ']).pass quoted)) :
    ReadsValue stage s v false
      (s.pass (' ' :: (quoted ++ '\n' :: List.replicate columns ' '))) := by
  have hnext := Spot.rest_pass (Spot.rest_pass_cons hrest)
  have hspot : s.pass (' ' :: (quoted ++ '\n' :: List.replicate columns ' ')) =
      ((s.pass [' ']).pass quoted).pass ('\n' :: List.replicate columns ' ') :=
    Spot.pass_append _ _ _
  obtain ⟨text, rfl⟩ := List.head?_eq_some_iff.mp hquote
  rw [hspot]
  refine ⟨_, false, fetches_scalar hrest ?_ ?_ ?_ hcolumn (fun cursor hcursor => ?_) ?_,
    gives_skipToToken_line hnext rfl (by decide) honset.head⟩
  · cases double <;> rfl
  · cases double <;> rfl
  · cases double <;> decide
  · have hfetch : (stage.scan cursor).fetchAt (if double then '"' else '\'') =
        (stage.scan cursor).fetchQuoted double := by
      cases double <;> rfl
    rw [hfetch]
    exact Stage.fetchQuoted_scan hcursor hallowed hread
  · exact gives_skipLineComment (.inr ⟨0, _, hnext, by simp [isBlank]⟩)

/-- A value that is written as a literal block is read back, unless it starts with a tab. -/
theorem readsValue_literal (hv : style v = .literal) (htab : v.head? ≠ some '\t')
    (honset : Onset columns next) (hcolumns : columns ≤ step) (hindent : stage.indent = step)
    (hcolumn : stage.indent ≤ s.column) (hkey : stage.key.possible = false)
    (hrest : s.rest = ' ' :: (endLine (literalBlock 2 v) ++ (List.replicate columns ' ' ++ next))) :
    ReadsValue stage s v false
      (s.pass (' ' :: (endLine (literalBlock 2 v) ++ List.replicate columns ' '))) := by
  obtain ⟨hkeeps, hne⟩ := keepsBreaks_of_style hv
  have hvalue := Spot.rest_pass_cons hrest
  have hblock : Gives (readBlock false stage.indent) (s.pass [' ']) v
      ((s.pass [' ']).pass (endLine (literalBlock 2 v) ++ List.replicate columns ' ')) := by
    rw [hindent]
    exact gives_readBlock 1 hkeeps hne htab honset (by simp [step] at hcolumns ⊢; omega)
      hvalue
  have hbar : ∃ after, s.rest = ' ' :: '|' :: after :=
    ⟨_, by rw [hrest, endLine_literalBlock 2 hne]; rfl⟩
  obtain ⟨after, hbar⟩ := hbar
  refine ⟨_, true, fetches_scalar hbar rfl rfl (by decide) hcolumn (fun cursor hcursor => ?_) ?_,
    honset.gives_skipToToken ?_ true⟩
  · have hfetch : (stage.scan cursor).fetchAt '|' = (stage.scan cursor).fetchBlock false := rfl
    rw [hfetch]
    exact Stage.fetchBlock_scan hcursor hkey hblock
  · obtain ⟨x, b, hends, hb⟩ := exists_endLine_eq (literalBlock 2 v)
    rw [hends, List.append_assoc]
    exact gives_skipLineComment (.inl (Spot.pass_indent _ x hb columns).2)
  · exact Spot.rest_pass (by rw [hrest]; simp)

/-- **A written value is fetched** as the text that was written. Except behind a block, the line of
the value ends with a line feed of its own. -/
theorem readsValue_written (hv : ¬Refused v) (honset : Onset columns next)
    (hcolumns : columns ≤ step)
    (hindent : stage.indent = step) (hcolumn : stage.indent ≤ s.column)
    (hallowed : stage.keyAllowed = false) (hkey : stage.key.possible = false)
    (hrest : s.rest = ' ' :: (endLine (written 2 v) ++ (List.replicate columns ' ' ++ next))) :
    ReadsValue stage s v (style v = .plain)
      (s.pass (' ' :: (endLine (written 2 v) ++ List.replicate columns ' '))) := by
  have hfeed : ∀ {w : List Char} {c : Char}, isBreak c = false → written 2 v = w ++ [c] →
      (∀ after, endLine (written 2 v) ++ after = written 2 v ++ '\n' :: after) := by
    intro w c hc hwritten after
    rw [hwritten, endLine_of_not_break hc]
    simp
  cases hstyle : style v with
  | plain =>
    obtain ⟨hline, -, -⟩ := isPlainLine_of_style hstyle
    have hwritten : written 2 v = v := by rw [written, hstyle]
    have hlast := (hline.line _ (List.getLast_mem hline.ne_nil)).1
    have hends := hfeed hlast (hwritten.trans (List.dropLast_concat_getLast hline.ne_nil).symm)
    rw [hends, hwritten] at hrest ⊢
    simpa [hstyle] using
      readsValue_plain hstyle honset (by omega) hcolumn hallowed (by simpa using hrest)
  | singleQuoted =>
    have hwritten : written 2 v = singleQuoted 2 v := by rw [written, hstyle]
    have hends := hfeed (c := '\'') rfl (by rw [hwritten, singleQuoted_eq])
    rw [hends, hwritten] at hrest ⊢
    have hread := gives_readQuoted_single (isFolded_of_style hstyle) (by decide)
      (Spot.rest_pass_cons hrest) (by simp)
    simpa [hstyle] using
      readsValue_quoted false rfl honset hcolumn hallowed hrest hread
  | doubleQuoted =>
    have hwritten : written 2 v = doubleQuoted v := by rw [written, hstyle]
    have hends := hfeed (c := '"') rfl (by rw [hwritten, doubleQuoted])
    rw [hends, hwritten] at hrest ⊢
    have hread := gives_readQuoted_double (Spot.rest_pass_cons hrest)
    simpa [hstyle] using
      readsValue_quoted true rfl honset hcolumn hallowed hrest hread
  | literal =>
    have hwritten : written 2 v = literalBlock 2 v := by rw [written, hstyle]
    rw [hwritten] at hrest ⊢
    simpa [hstyle] using readsValue_literal hstyle (fun htab => hv ⟨hstyle, htab⟩) honset
      hcolumns hindent hcolumn hkey hrest

end Fetching

end DocHarvest.Yaml
