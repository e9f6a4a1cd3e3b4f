import DocHarvest.Yaml.Scalar
import DocHarvest.Yaml.Writer
import DocHarvest.Proofs.Yaml.Reading

/-!
# Words and Gaps

A text on the lines of a document is read word by word, without quotes and inside them. What
stands between two words is gathered as a gap first, because it depends on what follows whether it
counts. Here is what the readers give at a spot for a gap, for a word, and from these, by induction
on the words of a text, for plain text.

## Main definitions

* `Yaml.Gap.addAll` — a gap with some characters more.

## Main results

* `Yaml.words_induction` — a text is one word, or a word, a gap and a text.
* `Yaml.gives_readGap` — reading a gap.
* `Yaml.gives_readPlain_name`, `Yaml.gives_readPlain_line` — plain text before a colon, and on a
  line of its own.
-/

namespace DocHarvest.Yaml

variable {s t : Spot}

/-! ### The words of a text -/

/-- A text is one word, or it is a word, a gap, and a text that starts with a word. -/
theorem words_induction (apart : Char → Bool) {motive : List Char → Prop}
    (word : ∀ w : List Char, (∀ c ∈ w, apart c = false) → motive w)
    (more : ∀ w gap v : List Char, (∀ c ∈ w, apart c = false) → gap ≠ [] →
      (∀ c ∈ gap, apart c = true) → (∀ c ∈ v.head?, apart c = false) → motive v →
      motive (w ++ gap ++ v))
    (text : List Char) : motive text := by
  induction hn : text.length using Nat.strongRecOn generalizing text with
  | ind n ih =>
    have hsplit := List.takeWhile_append_dropWhile (p := fun c => !apart c) (l := text)
    have hword : ∀ c ∈ text.takeWhile (fun c => !apart c), apart c = false :=
      fun c hc => by simpa using List.all_eq_true.mp List.all_takeWhile c hc
    cases hrest : text.dropWhile (fun c => !apart c) with
    | nil =>
      rw [hrest, List.append_nil] at hsplit
      rw [← hsplit]
      exact word _ hword
    | cons c rest =>
      have hc : apart c = true := by
        have := List.head?_dropWhile_not (fun c => !apart c) text
        simpa [hrest] using this
      have hgap := List.takeWhile_append_dropWhile (p := apart) (l := c :: rest)
      rw [hrest, ← hgap, ← List.append_assoc] at hsplit
      rw [← hsplit]
      refine more _ _ _ hword ?_ ?_ ?_ (ih _ ?_ _ rfl)
      · simp [hc]
      · exact fun d hd => List.all_eq_true.mp List.all_takeWhile d hd
      · intro d hd
        have := List.head?_dropWhile_not apart (c :: rest)
        rw [Option.mem_def.mp hd] at this
        simpa using this
      · have hlength := congrArg List.length hsplit
        simp only [List.length_append, List.takeWhile_cons, hc, if_true, List.length_cons]
          at hlength
        omega

/-! ### Gaps -/

/-- A gap with one character more, a blank or a line break. -/
def Gap.add (gap : Gap) (c : Char) : Gap :=
  if isBlank c then gap.addBlank c else gap.addBreak c

/-- A gap with some characters more. -/
def Gap.addAll (gap : Gap) (text : List Char) : Gap :=
  text.foldl Gap.add gap

/-- The first character is added to a gap first. -/
theorem Gap.addAll_cons (gap : Gap) (c : Char) (text : List Char) :
    gap.addAll (c :: text) = (gap.add c).addAll text := rfl

/-- Texts are added to a gap one after another. -/
theorem Gap.addAll_append (gap : Gap) (text text' : List Char) :
    gap.addAll (text ++ text') = (gap.addAll text).addAll text' :=
  List.foldl_append

/-- What ends a line is no blank. -/
theorem isBlank_of_isBreak {c : Char} (h : isBreak c = true) : isBlank c = false := by
  simp only [isBreak, Bool.or_eq_true, decide_eq_true_eq] at h
  rcases h with (((rfl | rfl) | rfl) | rfl) | rfl <;> rfl

/-- **Reading a gap** of spaces and line breaks gathers all of it. -/
theorem gives_readGap {indentation? : Option Int} {text after : List Char} {fuel : Nat} {gap : Gap}
    (hrest : s.rest = text ++ after)
    (htext : ∀ c ∈ text, c = ' ' ∨ isBreak c = true ∧ c ≠ '\r')
    (hafter : ∀ c ∈ after.head?, isBlank c = false ∧ isBreak c = false)
    (hfuel : text.length ≤ fuel) :
    Gives (readGap indentation? fuel gap) s (gap.addAll text) (s.pass text) := by
  induction text generalizing s fuel gap with
  | nil =>
    cases fuel with
    | zero => exact .pure _ _
    | succ fuel =>
      refine .get fun c hc => ?_
      rw [hc.head?, hrest, List.nil_append]
      cases hhead : after.head? with
      | none => exact .pure _ _
      | some ch =>
        obtain ⟨hblank, hbreak⟩ := hafter ch hhead
        simp only [hblank, hbreak, Bool.false_eq_true, if_false]
        exact .pure _ _
  | cons ch text ih =>
    obtain ⟨hch, htext⟩ := List.forall_mem_cons.mp htext
    cases fuel with
    | zero => simp at hfuel
    | succ fuel =>
      have hlater : Gives (readGap indentation? fuel (gap.add ch)) (s.pass [ch])
          (gap.addAll (ch :: text)) (s.pass (ch :: text)) :=
        ih (Spot.rest_pass_cons hrest) htext (by simpa using hfuel)
      refine .get fun c hc => ?_
      rw [hc.head?, hrest, List.cons_append, List.head?_cons]
      rcases hch with rfl | ⟨hbreak, hreturn⟩
      · have htab :
            (gap.broken && decide (' ' = '\t') && before indentation? c.column) = false := by
          simp
        simp only [htab, show isBlank ' ' = true from rfl, if_true, Bool.false_eq_true, if_false]
        exact (gives_skip_one hrest rfl).bind
          ((gives_demand 1 _).bind hlater)
      · have hblank := isBlank_of_isBreak hbreak
        rw [Gap.add, hblank, if_neg Bool.false_ne_true] at hlater
        simp only [hblank, hbreak, if_true, Bool.false_eq_true, if_false]
        exact (gives_skipBreak hrest hbreak hreturn).bind ((gives_demand 1 _).bind hlater)

/-- A gap of spaces stands for itself. -/
theorem Gap.addAll_spaces {text : List Char} (htext : ∀ c ∈ text, c = ' ') (blanks : List Char) :
    Gap.addAll { blanks } text = { blanks := text.reverse ++ blanks } := by
  induction text generalizing blanks with
  | nil => rfl
  | cons c text ih =>
    obtain ⟨rfl, hspaces⟩ := List.forall_mem_cons.mp htext
    rw [List.reverse_cons, List.append_assoc]
    exact ih hspaces (' ' :: blanks)

/-- Spaces after a line break do not count. -/
theorem Gap.addAll_broken {gap : Gap} {text : List Char} (hgap : gap.broken = true)
    (htext : ∀ c ∈ text, c = ' ') : gap.addAll text = gap := by
  induction text with
  | nil => rfl
  | cons c text ih =>
    obtain ⟨rfl, hspaces⟩ := List.forall_mem_cons.mp htext
    have hadd : gap.add ' ' = gap := by simp [Gap.add, Gap.addBlank, isBlank, hgap]
    rw [Gap.addAll_cons, hadd]
    exact ih hspaces

/-- Line breaks after the first are kept apart from it. -/
theorem Gap.addAll_breaks {gap : Gap} {text : List Char} (hgap : gap.broken = true)
    (htext : ∀ c ∈ text, isBreak c = true) :
    gap.addAll text =
      { gap with moreBreaks := (text.map readBreak).reverse ++ gap.moreBreaks } := by
  induction text generalizing gap with
  | nil => rfl
  | cons c text ih =>
    obtain ⟨hc, htext⟩ := List.forall_mem_cons.mp htext
    have hadd : gap.add c = { gap with moreBreaks := readBreak c :: gap.moreBreaks } := by
      simp [Gap.add, Gap.addBreak, isBlank_of_isBreak hc, hgap]
    rw [Gap.addAll_cons, hadd, ih ?_ htext]
    · simp
    · exact hgap

/-! ### Lines with an indentation -/

section Lines

variable {level : Nat} {w g v : List Char}

/-- Inside a line nothing is added. -/
theorem indentLines_line (hw : ∀ c ∈ w, isBreak c = false) (v : List Char) :
    indentLines level false (w ++ v) = w ++ indentLines level false v := by
  induction w with
  | nil => rfl
  | cons c w ih =>
    obtain ⟨hc, hw⟩ := List.forall_mem_cons.mp hw
    simp only [List.cons_append, indentLines, hc, Bool.false_eq_true, if_false, List.nil_append,
      ih hw]

/-- A text of one line is not indented. -/
theorem indentLines_self (hw : ∀ c ∈ w, isBreak c = false) : indentLines level false w = w := by
  have hlines : indentLines level false (w ++ []) = _ := indentLines_line hw []
  rwa [indentLines, List.append_nil] at hlines

/-- Indenting the lines of a text keeps its first character. -/
theorem head?_indentLines (v : List Char) : (indentLines level false v).head? = v.head? := by
  cases v with
  | nil => rfl
  | cons c v =>
    unfold indentLines
    split <;> rfl

/-- A text is no longer than it is with its lines indented. -/
theorem length_le_indentLines (fresh : Bool) (v : List Char) :
    v.length ≤ (indentLines level fresh v).length := by
  induction v generalizing fresh with
  | nil => exact Nat.le_refl _
  | cons c v ih =>
    unfold indentLines
    split
    · exact Nat.succ_le_succ (ih true)
    · rw [List.length_append, List.length_cons, List.length_cons]
      have := ih false
      omega

/-- Behind line breaks a line begins. -/
theorem indentLines_breaks (hg : ∀ c ∈ g, isBreak c = true) (v : List Char) :
    indentLines level true (g ++ v) = g ++ indentLines level true v := by
  induction g with
  | nil => rfl
  | cons c g ih =>
    obtain ⟨hc, hg⟩ := List.forall_mem_cons.mp hg
    simp only [List.cons_append, indentLines, hc, if_true, ih hg]

/-- A line that begins gets its indentation. -/
theorem indentLines_fresh {c : Char} (hc : isBreak c = false) (v : List Char) :
    indentLines level true (c :: v) = indentation level ++ indentLines level false (c :: v) := by
  simp only [indentLines, hc, Bool.false_eq_true, if_false, if_true, List.nil_append]

/-- Line breaks end a line that has begun as they end an empty one. -/
theorem indentLines_break {c : Char} (hc : isBreak c = true) (fresh : Bool) (v : List Char) :
    indentLines level fresh (c :: v) = c :: indentLines level true v := by
  simp only [indentLines, hc, if_true]

end Lines

/-! ### What may follow a value -/

/-- What stands behind the line of a value: the next line's indentation of some columns and a
character that starts a token, or the end of the text. -/
def Onset (columns : Nat) (next : List Char) : Prop :=
  next = [] ∧ columns = 0 ∨
    ∃ c rest, next = c :: rest ∧ isBlank c = false ∧ isBreak c = false ∧ c ≠ '#'

/-- What starts a line is neither a blank nor a line break nor the start of a comment. -/
theorem Onset.head {columns : Nat} {next : List Char} (h : Onset columns next) :
    ∀ c ∈ next.head?, isBlank c = false ∧ isBreak c = false ∧ c ≠ '#' := by
  rintro c hc
  obtain ⟨rfl, -⟩ | ⟨d, rest, rfl, hd⟩ := h
  · cases hc
  · rw [List.head?_cons, Option.mem_some_iff] at hc
    exact hc ▸ hd

/-! ### Plain text -/

/-- **Reading a word** stops where a word ends. -/
theorem gives_plainWord {word after : List Char} {fuel : Nat} {chars : List Char}
    (hrest : s.rest = word ++ after)
    (hword : ∀ c rest, c :: rest <:+ word → endsWord false c (rest ++ after).head? = false)
    (hafter : ∀ c rest, after = c :: rest → endsWord false c rest.head? = true)
    (hfuel : word.length ≤ fuel) :
    Gives (plainWord false fuel chars) s (chars.reverse ++ word) (s.pass word) := by
  induction word generalizing s fuel chars with
  | nil =>
    rw [List.append_nil, Spot.pass_nil]
    cases fuel with
    | zero => exact .pure _ _
    | succ fuel =>
      refine (gives_head? s).bind ?_
      rw [hrest, List.nil_append]
      cases after with
      | nil => exact .pure _ _
      | cons c rest =>
        refine (gives_peek? 1 s).bind ?_
        have hends : endsWord false c s.rest[1]? = true := by
          rw [hrest, List.nil_append, List.getElem?_cons_succ, ← List.head?_eq_getElem?]
          exact hafter c rest rfl
        rw [if_pos hends]
        exact .pure _ _
  | cons c word ih =>
    cases fuel with
    | zero => simp at hfuel
    | succ fuel =>
      have hends : endsWord false c s.rest[1]? = false := by
        rw [hrest, List.cons_append, List.getElem?_cons_succ, ← List.head?_eq_getElem?]
        exact hword c word (List.suffix_refl _)
      have hbreak : isBreak c = false := by
        simp only [endsWord, Bool.or_eq_false_iff] at hends
        exact hends.1.1.2
      have htail : Gives (plainWord false fuel (c :: chars)) (s.pass [c])
          ((c :: chars).reverse ++ word) ((s.pass [c]).pass word) :=
        ih (Spot.rest_pass_cons hrest)
          (fun d rest hd => hword d rest (hd.trans (List.suffix_cons _ _)))
          (by simpa using hfuel)
      rw [List.reverse_cons, List.append_assoc] at htail
      refine (gives_head? s).bind ?_
      rw [hrest, List.cons_append, List.head?_cons]
      refine (gives_peek? 1 s).bind ?_
      rw [if_neg (by simp [hends])]
      exact (gives_skip_one hrest hbreak).bind ((gives_demand 2 _).bind htail)

/-- A word and the gap behind it, in plain text that goes on. -/
theorem gives_readWords_step {indentation : Int} {word gapText after : List Char} {fuel : Nat}
    {text : List Char} {gap : Gap} {a : Plain} {u : Spot}
    (hrest : s.rest = word ++ (gapText ++ after)) (hcolumn : 0 < s.column) (hne : word ≠ [])
    (hhash : word.head? ≠ some '#')
    (hword : ∀ c rest, c :: rest <:+ word →
      endsWord false c (rest ++ (gapText ++ after)).head? = false)
    (hgap : gapText ≠ []) (hgapText : ∀ c ∈ gapText, c = ' ' ∨ isBreak c = true ∧ c ≠ '\r')
    (hafter : ∀ c ∈ after.head?, isBlank c = false ∧ isBreak c = false)
    (h : Gives
      (if ((s.pass (word ++ gapText)).column : Int) < indentation then
        pure ⟨text.reverse ++ gap.text ++ word, (Gap.addAll {} gapText).broken⟩
      else
        readWords false indentation fuel ((gap.text ++ word).reverseAux text)
          (Gap.addAll {} gapText))
      (s.pass (word ++ gapText)) a u) :
    Gives (readWords false indentation (fuel + 1) text gap) s a u := by
  have hfits : ∀ c : Cursor, c.At s → word.length ≤ c.total ∧ gapText.length ≤ c.total := by
    intro c hc
    have := hc.fits
    rw [hrest, List.length_append, List.length_append] at this
    rw [hc.total]
    omega
  have hends : ∀ c rest, gapText ++ after = c :: rest → endsWord false c rest.head? = true := by
    intro c rest hc
    have hmem : c ∈ gapText := by
      cases gapText with
      | nil => exact absurd rfl hgap
      | cons d gapText =>
        rw [List.cons_append, List.cons.injEq] at hc
        exact hc.1 ▸ List.mem_cons_self
    obtain rfl | ⟨hbreak, -⟩ := hgapText c hmem
    · rfl
    · simp [endsWord, hbreak]
  unfold readWords
  refine (gives_demand 4 s).bind (.get fun c hc => ?_)
  have hmark : (c.atDocumentMark || decide (c.head? = some '#')) = false := by
    have hhead : s.rest.head? = word.head? := by
      obtain ⟨d, word, rfl⟩ := List.exists_cons_of_ne_nil hne
      rw [hrest, List.cons_append, List.head?_cons, List.head?_cons]
    rw [Cursor.atDocumentMark, hc.atMark, hc.atMark, hc.head?, hhead]
    simp [hhash, Nat.ne_of_gt hcolumn]
  rw [if_neg (by simp [hmark])]
  refine (gives_plainWord hrest hword hends (hfits c hc).1).bind ?_
  have hpast : (s.pass word).rest = gapText ++ after := Spot.rest_pass hrest
  have hnext : (atBlank (s.pass word).rest.head? || atBreak (s.pass word).rest.head?) = true := by
    rw [hpast]
    cases gapText with
    | nil => exact absurd rfl hgap
    | cons d gapText =>
      rw [List.cons_append, List.head?_cons]
      obtain rfl | ⟨hbreak, -⟩ := hgapText d List.mem_cons_self
      · rfl
      · simp [atBreak, hbreak]
  refine (gives_head? _).bind ?_
  simp only [List.reverse_nil, List.nil_append, List.isEmpty_eq_false_iff.mpr hne,
    Bool.false_eq_true, if_false, hnext, Bool.not_true, Bool.not_false, Bool.true_and,
    decide_eq_true_eq]
  refine (gives_demand 1 _).bind
    ((gives_readGap hpast hgapText hafter (hfits c hc).2).bind (.get fun c' hc' => ?_))
  rw [hc'.column, ← Spot.pass_append]
  simpa [List.reverseAux_eq] using h

/-- A text that can stand on a line without quotes. -/
structure IsPlainLine (v : List Char) : Prop where
  clear : holdsIndicator true v = false
  line : ∀ c ∈ v, isBreak c = false ∧ c ≠ '\t'
  ne_nil : v ≠ []
  starts : v.head? ≠ some ' '
  ends : v.getLast? ≠ some ' '

/-- A text without an indicator has none in its end. -/
theorem holdsIndicator_suffix {afterBlank : Bool} {v v' : List Char}
    (h : holdsIndicator afterBlank v = false) (hsuffix : v' <:+ v) :
    ∃ afterBlank', holdsIndicator afterBlank' v' = false := by
  induction v generalizing afterBlank with
  | nil => exact ⟨afterBlank, (List.suffix_nil.mp hsuffix) ▸ h⟩
  | cons c v ih =>
    obtain rfl | hsuffix := List.suffix_cons_iff.mp hsuffix
    · exact ⟨afterBlank, h⟩
    · simp only [holdsIndicator, Bool.or_eq_false_iff] at h
      exact ih h.2 hsuffix

namespace IsPlainLine

variable {v : List Char}

/-- No word of the text ends before a blank. -/
theorem not_endsWord (hv : IsPlainLine v) {c : Char} {rest : List Char} (after : List Char)
    (hsuffix : c :: rest <:+ v) (hc : isBlank c = false) :
    endsWord false c (rest ++ after).head? = false := by
  obtain ⟨afterBlank, hclear⟩ := holdsIndicator_suffix hv.clear hsuffix
  have hbreak := (hv.line c (hsuffix.subset List.mem_cons_self)).1
  simp only [holdsIndicator, Bool.or_eq_false_iff] at hclear
  simp only [endsWord, hc, hbreak, Bool.false_or, Bool.false_and, Bool.or_false]
  cases rest with
  | nil =>
    have hcolon : decide (c = ':') = false := by simpa using hclear.1.1
    rw [hcolon, Bool.false_and]
  | cons d rest =>
    have hd := (hv.line d (hsuffix.subset (by simp))).1
    simpa [atGap, hd] using hclear.1.1

/-- A plain line starts no comment. -/
theorem head_ne_hash (hv : IsPlainLine v) : v.head? ≠ some '#' := by
  have hclear := hv.clear
  cases v with
  | nil => simp
  | cons c rest =>
    simp only [holdsIndicator, Bool.or_eq_false_iff, Bool.and_true] at hclear
    simpa using hclear.1.2

/-- A gap in the text is not at its start, holds nothing but spaces, and what follows can stand on
a line too. -/
theorem gap {w g v' : List Char} (hv : IsPlainLine (w ++ g ++ v')) (hg : g ≠ [])
    (hblank : ∀ c ∈ g, isBlank c = true) (hstarts : v'.head? ≠ some ' ') :
    w ≠ [] ∧ (∀ c ∈ g, c = ' ') ∧ IsPlainLine v' := by
  have hspaces : ∀ c ∈ g, c = ' ' := by
    intro c hc
    have htab := (hv.line c (by simp [hc])).2
    simpa [isBlank, htab] using hblank c hc
  refine ⟨?_, hspaces, ?_⟩
  · rintro rfl
    obtain ⟨c, g, rfl⟩ := List.exists_cons_of_ne_nil hg
    obtain rfl := hspaces c List.mem_cons_self
    exact hv.starts rfl
  · have hlast : g = g.dropLast ++ [' '] := by
      rw [← hspaces _ (List.getLast_mem hg), List.dropLast_concat_getLast]
    have hne : v' ≠ [] := by
      rintro rfl
      refine hv.ends ?_
      rw [hlast]
      simp
    have hsuffix : ' ' :: v' <:+ w ++ g ++ v' := ⟨w ++ g.dropLast, by rw [hlast]; simp⟩
    obtain ⟨afterBlank, hclear⟩ := holdsIndicator_suffix hv.clear hsuffix
    simp only [holdsIndicator, Bool.or_eq_false_iff] at hclear
    refine ⟨hclear.2, fun c hc => hv.line c (by simp [hc]), hne, hstarts, ?_⟩
    have hends := hv.ends
    rwa [List.getLast?_append, List.getLast?_eq_some_getLast hne, Option.some_or,
      ← List.getLast?_eq_some_getLast hne] at hends

end IsPlainLine

/-- Reading the words of a line, which ends where the next line starts further to the left. -/
theorem gives_readWords {indentation : Int} {columns : Nat} {next v : List Char} {fuel : Nat}
    {text : List Char} {gap : Gap} (hv : IsPlainLine v) (honset : Onset columns next)
    (hcolumns : (columns : Int) < indentation) (hcolumn : indentation ≤ s.column)
    (hrest : s.rest = v ++ ('\n' :: List.replicate columns ' ' ++ next))
    (hfuel : v.length < fuel) :
    Gives (readWords false indentation fuel text gap) s ⟨text.reverse ++ gap.text ++ v, true⟩
      (s.pass (v ++ '\n' :: List.replicate columns ' ')) := by
  obtain ⟨fuel, rfl⟩ := Nat.exists_eq_add_one_of_ne_zero (Nat.ne_zero_of_lt hfuel)
  induction v using words_induction isBlank generalizing s fuel text gap with
  | word w hw =>
    have hend : ((s.pass (w ++ '\n' :: List.replicate columns ' ')).column : Int)
        < indentation := by
      rw [(Spot.pass_indent s w rfl columns).1]
      exact hcolumns
    have hbroken : (Gap.addAll {} ('\n' :: List.replicate columns ' ')).broken = true := by
      rw [Gap.addAll_cons]
      exact congrArg Gap.broken (Gap.addAll_broken rfl fun c hc => List.eq_of_mem_replicate hc)
    refine gives_readWords_step hrest (by omega) hv.ne_nil hv.head_ne_hash ?_ (by simp) ?_ ?_ ?_
    · exact fun c rest hsuffix =>
        hv.not_endsWord _ hsuffix (hw c (hsuffix.subset List.mem_cons_self))
    · intro c hc
      obtain rfl | hc := List.mem_cons.mp hc
      · exact .inr ⟨rfl, by decide⟩
      · exact .inl (List.eq_of_mem_replicate hc)
    · exact fun c hc => ⟨(honset.head c hc).1, (honset.head c hc).2.1⟩
    · rw [if_pos hend, hbroken]
      exact .pure _ _
  | more w g v' hw hg hblank hhead ih =>
    obtain ⟨hne, hspaces, hv'⟩ := hv.gap hg hblank fun hspace => by cases hhead ' ' hspace
    obtain ⟨c, v', rfl⟩ := List.exists_cons_of_ne_nil hv'.ne_nil
    rw [List.append_assoc, List.append_assoc] at hrest
    have hgapText : (Gap.addAll {} g).text = g := by
      rw [Gap.addAll_spaces hspaces, Gap.text]
      simp
    have hcolumn' : indentation ≤ (s.pass (w ++ g)).column := by
      rw [(Spot.pass_line fun c hc => (hv.line c (List.mem_append_left _ hc)).1).1]
      omega
    have hrest' : (s.pass (w ++ g)).rest =
        c :: v' ++ ('\n' :: List.replicate columns ' ' ++ next) :=
      Spot.rest_pass (by rw [hrest, List.append_assoc])
    simp only [List.length_append] at hfuel
    have hpositive : 0 < g.length := List.length_pos_iff.mpr hg
    obtain ⟨fuel, rfl⟩ : ∃ n, fuel = n + 1 := Nat.exists_eq_add_one_of_ne_zero (by omega)
    have hlater : Gives (readWords false indentation (fuel + 1) ((gap.text ++ w).reverseAux text)
        (Gap.addAll {} g)) (s.pass (w ++ g)) _ _ :=
      ih hv' hcolumn' hrest' fuel (by omega)
    rw [hgapText, List.reverseAux_eq, ← Spot.pass_append] at hlater
    refine gives_readWords_step hrest (by omega) hne ?_ ?_ hg (fun c hc => .inl (hspaces c hc)) ?_ ?_
    · obtain ⟨d, w, rfl⟩ := List.exists_cons_of_ne_nil hne
      exact hv.head_ne_hash
    · intro d rest hsuffix
      have hd := hw d (hsuffix.subset List.mem_cons_self)
      have hlonger : d :: (rest ++ (g ++ c :: v')) <:+ w ++ g ++ c :: v' := by
        obtain ⟨x, rfl⟩ := hsuffix
        exact ⟨x, by simp⟩
      have hends := hv.not_endsWord ('\n' :: List.replicate columns ' ' ++ next) hlonger hd
      simpa using hends
    · intro d hd
      rw [List.cons_append, List.head?_cons, Option.mem_some_iff] at hd
      subst hd
      exact ⟨hhead c (by simp), (hv'.line c (by simp)).1⟩
    · rw [if_neg (by omega)]
      simpa using hlater

/-- **Plain text on a line of its own** is read whole, with the indentation of the line behind
it. -/
theorem gives_readPlain_line {indent : Int} {columns : Nat} {next v : List Char}
    (hv : IsPlainLine v) (honset : Onset columns next) (hcolumns : columns ≤ indent)
    (hcolumn : indent < s.column)
    (hrest : s.rest = v ++ ('\n' :: List.replicate columns ' ' ++ next)) :
    Gives (readPlain false indent) s ⟨v, true⟩
      (s.pass (v ++ '\n' :: List.replicate columns ' ')) := by
  refine .get fun c hc => gives_readWords hv honset (by omega) (by omega) hrest ?_
  have hfits := hc.fits
  rw [hrest, List.length_append] at hfits
  rw [hc.total]
  omega

/-- Whether a word is made of letters, digits and underscores. -/
def isName (name : List Char) : Bool :=
  !name.isEmpty && name.all fun c => c.isAlphanum || c = '_'

/-- What cannot stand in a name differs from what stands in one. -/
theorem ne_of_isName {name : List Char} {c d : Char} (h : isName name = true) (hc : c ∈ name)
    (hd : (d.isAlphanum || decide (d = '_')) = false) : c ≠ d := by
  rintro rfl
  simp only [isName, Bool.and_eq_true, List.all_eq_true] at h
  exact Bool.false_ne_true (hd.symm.trans (h.2 c hc))

/-- There are neither blanks nor line breaks in a name. -/
theorem gap_of_isName {name : List Char} {c : Char} (h : isName name = true) (hc : c ∈ name) :
    isBlank c = false ∧ isBreak c = false := by
  simp only [isBlank, isBreak, Bool.or_eq_false_iff, decide_eq_false_iff_not]
  exact ⟨⟨ne_of_isName h hc rfl, ne_of_isName h hc rfl⟩, ⟨⟨⟨ne_of_isName h hc rfl,
    ne_of_isName h hc rfl⟩, ne_of_isName h hc rfl⟩, ne_of_isName h hc rfl⟩, ne_of_isName h hc rfl⟩

/-- **A name before a colon** is read up to it. -/
theorem gives_readPlain_name {indent : Int} {name after : List Char} (hname : isName name = true)
    (hrest : s.rest = name ++ ':' :: after) (hafter : atGap after.head? = true) :
    Gives (readPlain false indent) s ⟨name, false⟩ (s.pass name) := by
  have hne : name ≠ [] := by
    rintro rfl
    cases hname
  refine .get fun c hc => ?_
  have hfits : name.length ≤ c.total := by
    have := hc.fits
    rw [hrest, List.length_append] at this
    rw [hc.total]
    omega
  refine (gives_demand 4 s).bind (.get fun c' hc' => ?_)
  have hmark : (c'.atDocumentMark || decide (c'.head? = some '#')) = false := by
    obtain ⟨d, name, rfl⟩ := List.exists_cons_of_ne_nil hne
    have hd := List.mem_cons_self (a := d) (l := name)
    rw [Cursor.atDocumentMark, hc'.atMark, hc'.atMark, hc'.head?, hrest]
    simp [ne_of_isName hname hd (d := '-') rfl, ne_of_isName hname hd (d := '.') rfl,
      ne_of_isName hname hd (d := '#') rfl]
  rw [if_neg (by simp [hmark])]
  have hword : ∀ d rest, d :: rest <:+ name →
      endsWord false d (rest ++ ':' :: after).head? = false := by
    intro d rest hsuffix
    have hd : d ∈ name := hsuffix.subset List.mem_cons_self
    simp [endsWord, gap_of_isName hname hd, ne_of_isName hname hd (d := ':') rfl]
  have hends : ∀ d rest, ':' :: after = d :: rest → endsWord false d rest.head? = true := by
    rintro d rest heq
    cases heq
    simp [endsWord, hafter]
  refine (gives_plainWord hrest hword hends (hc'.total ▸ hc.total ▸ hfits)).bind ?_
  refine (gives_head? _).bind ?_
  rw [Spot.rest_pass hrest, List.head?_cons, if_pos (by decide)]
  simp only [List.reverse_nil, List.nil_append, List.isEmpty_eq_false_iff.mpr hne,
    Bool.false_eq_true, if_false]
  have htext : ((Gap.text {} ++ name).reverseAux []).reverse = name := by
    simp [List.reverseAux_eq, Gap.text]
  rw [htext]
  exact .pure _ _

end DocHarvest.Yaml
