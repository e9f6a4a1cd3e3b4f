import Mathlib.Algebra.Group.Nat.Defs
import DocHarvest.Proofs.Yaml.Words

/-!
# Text in Quotes

What is written between quotes is read back. Between single quotes a quote is written twice, and a
line break is followed by the indentation of the next line, which is part of the gap that the
break belongs to. Between double quotes everything but plain characters is escaped.

Both are read word by word, so both come down to two facts: how one letter is read, and how one
word and what ends it are read.

## Main definitions

* `Yaml.Spells` — a letter between quotes is written so.
* `Yaml.IsFolded` — a text whose gaps survive between single quotes.

## Main results

* `Yaml.spells_single`, `Yaml.spells_escaped` — the letters between single and double quotes.
* `Yaml.gives_readQuoted_single`, `Yaml.gives_readQuoted_double` — text in quotes is read back.
-/

namespace DocHarvest.Yaml

variable {s t u : Spot} {double : Bool}

/-! ### Letters and words -/

/-- A letter between quotes is written so: reading moves over it and adds the letter. -/
structure Spells (double : Bool) (c : Char) (w : List Char) : Prop where
  reads : ∀ {s t : Spot} {after chars : List Char} {fuel : Nat} {a : List Char × Bool},
    s.rest = w ++ after → Gives (quotedWord double fuel (c :: chars)) (s.pass w) a t →
      Gives (quotedWord double (fuel + 1) chars) s a t
  starts : ∃ d rest, w = d :: rest ∧ isBlank d = false ∧ isBreak d = false
  line : ∀ d ∈ w, isBreak d = false

/-- What ends a word between quotes: a blank, a line break, or the closing quote, which between
single quotes no second one may follow. -/
def EndsQuoted (double : Bool) (after : List Char) : Prop :=
  ∃ d rest, after = d :: rest ∧
    (isBlank d = true ∨ isBreak d = true ∨
      d = (if double then '"' else '\'') ∧ (double = false → rest.head? ≠ some '\''))

/-- **Reading a word in quotes**, letter by letter. -/
theorem gives_quotedWord {spell : Char → List Char} {word after chars : List Char} {fuel : Nat}
    (hword : ∀ c ∈ word, Spells double c (spell c)) (hrest : s.rest = word.flatMap spell ++ after)
    (hafter : EndsQuoted double after) (hfuel : word.length ≤ fuel) :
    Gives (quotedWord double fuel chars) s (chars.reverse ++ word, false)
      (s.pass (word.flatMap spell)) := by
  induction word generalizing s chars fuel with
  | nil =>
    rw [List.append_nil, List.flatMap_nil, Spot.pass_nil]
    cases fuel with
    | zero => exact .pure _ _
    | succ fuel =>
      obtain ⟨d, rest, rfl, hd⟩ := hafter
      refine .get fun c hc => ?_
      rw [hc.rest, hrest, List.flatMap_nil, List.nil_append]
      obtain hd | hd | ⟨rfl, hquote⟩ := hd
      · simp only [hd, Bool.true_or, if_true]
        exact .pure _ _
      · simp only [hd, Bool.or_true, Bool.true_or, if_true]
        exact .pure _ _
      · cases double with
        | true => exact .pure _ _
        | false =>
          have hnext : rest.head? ≠ some '\'' := hquote rfl
          simp only [Bool.false_eq_true, if_false, isBlank, isBreak, hnext]
          exact .pure _ _
  | cons c word ih =>
    obtain ⟨hc, hword⟩ := List.forall_mem_cons.mp hword
    cases fuel with
    | zero => simp at hfuel
    | succ fuel =>
      rw [List.flatMap_cons, List.append_assoc] at hrest
      have htail : Gives (quotedWord double fuel (c :: chars)) (s.pass (spell c))
          ((c :: chars).reverse ++ word, false) ((s.pass (spell c)).pass (word.flatMap spell)) :=
        ih hword (Spot.rest_pass hrest) (by simpa using hfuel)
      rw [List.reverse_cons, List.append_assoc, ← Spot.pass_append] at htail
      exact hc.reads hrest htail

/-- A character is spelled by something. -/
theorem Spells.ne_nil {c : Char} {w : List Char} (h : Spells double c w) : w ≠ [] := by
  obtain ⟨d, rest, rfl, -⟩ := h.starts
  simp

/-- A text has at most as many characters as its spelling. -/
theorem length_le_flatMap {spell : Char → List Char} {v : List Char}
    (hv : ∀ c ∈ v, spell c ≠ []) : v.length ≤ (v.flatMap spell).length := by
  induction v with
  | nil => exact Nat.le_refl _
  | cons c v ih =>
    obtain ⟨hc, hv⟩ := List.forall_mem_cons.mp hv
    have := ih hv
    have := List.length_pos_iff.mpr hc
    simp only [List.flatMap_cons, List.length_append, List.length_cons]
    omega

/-- A text is its own spelling where each of its characters is. -/
theorem flatMap_self {spell : Char → List Char} {v : List Char} (hv : ∀ c ∈ v, spell c = [c]) :
    v.flatMap spell = v := by
  induction v with
  | nil => rfl
  | cons c v ih =>
    obtain ⟨hc, hv⟩ := List.forall_mem_cons.mp hv
    rw [List.flatMap_cons, hc, ih hv, List.singleton_append]

/-- Before the words between quotes no document starts or ends. -/
theorem not_atDocumentMark (double : Bool) {c : Cursor} (hc : c.At s)
    (hopen : 0 < s.column ∨ s.rest.head? = some (if double then '"' else '\'')) :
    c.atDocumentMark = false := by
  rw [Cursor.atDocumentMark, hc.atMark, hc.atMark]
  obtain hcolumn | hhead := hopen
  · simp [Nat.ne_of_gt hcolumn]
  · cases hrest : s.rest with
    | nil => simp
    | cons d rest =>
      rw [hrest, List.head?_cons, Option.some.injEq] at hhead
      subst hhead
      cases double <;> simp

/-- The last word and the closing quote. -/
theorem gives_readQuotedWords_close {spell : Char → List Char} {word after text : List Char}
    {fuel : Nat} (hword : ∀ c ∈ word, Spells double c (spell c))
    (hrest : s.rest = word.flatMap spell ++ (if double then '"' else '\'') :: after)
    (hquote : double = false → after.head? ≠ some '\'')
    (hopen : 0 < s.column ∨ s.rest.head? = some (if double then '"' else '\'')) :
    Gives (readQuotedWords double (fuel + 1) text) s (text.reverse ++ word)
      (s.pass (word.flatMap spell ++ [if double then '"' else '\''])) := by
  have hends : EndsQuoted double ((if double then '"' else '\'') :: after) :=
    ⟨_, after, rfl, .inr (.inr ⟨rfl, hquote⟩)⟩
  unfold readQuotedWords
  refine (gives_demand 4 s).bind (.get fun c hc => ?_)
  have hfuel : word.length ≤ c.total := by
    have hfits := hc.fits
    have := length_le_flatMap fun c hc => (hword c hc).ne_nil
    rw [hrest, List.length_append] at hfits
    rw [hc.total]
    omega
  have hsome : c.rest.isEmpty = false := by
    rw [hc.rest, hrest]
    simp
  simp only [not_atDocumentMark double hc hopen, hsome, Bool.or_self, Bool.false_eq_true, if_false]
  have hpast := Spot.rest_pass hrest
  refine (gives_quotedWord hword hrest hends hfuel).bind ((gives_demand 1 _).bind ?_)
  refine (gives_head? _).bind ?_
  have hclose : isBreak (if double then '"' else '\'') = false := by cases double <;> rfl
  rw [hpast, List.head?_cons, if_pos rfl, Spot.pass_append]
  refine (gives_skip_one hpast hclose).bind ?_
  have htext : ((word.reverseAux text).reverse) = text.reverse ++ word := by
    simp [List.reverseAux_eq]
  rw [List.reverse_nil, List.nil_append, htext]
  exact .pure _ _

/-- A word and the gap behind it, in quotes that go on. -/
theorem gives_readQuotedWords_gap {spell : Char → List Char} {word gapText after text : List Char}
    {fuel : Nat} {a : List Char} (hword : ∀ c ∈ word, Spells double c (spell c))
    (hrest : s.rest = word.flatMap spell ++ (gapText ++ after))
    (hopen : 0 < s.column) (hgap : gapText ≠ [])
    (hgapText : ∀ c ∈ gapText, c = ' ' ∨ isBreak c = true ∧ c ≠ '\r')
    (hafter : ∀ c ∈ after.head?, isBlank c = false ∧ isBreak c = false)
    (h : Gives (readQuotedWords double fuel
        ((word ++ (Gap.addAll {} gapText).text).reverseAux text))
      (s.pass (word.flatMap spell ++ gapText)) a u) :
    Gives (readQuotedWords double (fuel + 1) text) s a u := by
  obtain ⟨d, gapText, rfl⟩ := List.exists_cons_of_ne_nil hgap
  have hd : isBlank d = true ∨ isBreak d = true := by
    obtain rfl | ⟨hbreak, -⟩ := hgapText d List.mem_cons_self
    · exact .inl rfl
    · exact .inr hbreak
  have hends : EndsQuoted double (d :: gapText ++ after) :=
    ⟨d, gapText ++ after, rfl, hd.elim .inl (.inr ∘ .inl)⟩
  unfold readQuotedWords
  refine (gives_demand 4 s).bind (.get fun c hc => ?_)
  have hfuel : word.length ≤ c.total ∧ (d :: gapText).length ≤ c.total := by
    have hfits := hc.fits
    have := length_le_flatMap fun c hc => (hword c hc).ne_nil
    rw [hrest, List.length_append, List.length_append] at hfits
    rw [hc.total]
    omega
  have hsome : c.rest.isEmpty = false := by
    rw [hc.rest, hrest]
    simp
  simp only [not_atDocumentMark double hc (.inl hopen), hsome, Bool.or_self,
    Bool.false_eq_true, if_false]
  have hpast := Spot.rest_pass hrest
  refine (gives_quotedWord hword hrest hends hfuel.1).bind ((gives_demand 1 _).bind ?_)
  refine (gives_head? _).bind ?_
  have hopen : d ≠ (if double then '"' else '\'') := by
    rintro rfl
    cases double <;> simp [isBlank, isBreak] at hd
  rw [hpast, List.cons_append, List.head?_cons, if_neg (by simpa using hopen)]
  refine (gives_readGap hpast hgapText hafter hfuel.2).bind ?_
  rw [← Spot.pass_append]
  simpa [List.reverseAux_eq] using h

/-! ### The letters between quotes -/

/-- A letter that is written as it is. -/
theorem spells_self {c : Char} (hblank : isBlank c = false) (hbreak : isBreak c = false)
    (hquote : c ≠ if double then '"' else '\'') (hslash : double = true → c ≠ '\\') :
    Spells double c [c] where
  reads := by
    intro s t after chars fuel a hrest h
    refine .get fun d hd => ?_
    rw [hd.rest, hrest]
    have hlater : Gives (do Reader.skip 1; Reader.demand 2; quotedWord double fuel (c :: chars))
        s a t :=
      (gives_skip_one hrest hbreak).bind ((gives_demand 2 _).bind h)
    cases double with
    | true => simpa [hblank, hbreak, show c ≠ '"' from hquote, hslash rfl] using hlater
    | false => simpa [hblank, hbreak, show c ≠ '\'' from hquote] using hlater
  starts := ⟨c, [], rfl, hblank, hbreak⟩
  line := by simpa using hbreak

/-- A letter between single quotes: a quote is written twice. -/
def quoteTwice (c : Char) : List Char :=
  if c = '\'' then ['\'', '\''] else [c]

/-- A character within quotes is written by something. -/
theorem quoteTwice_ne_nil (c : Char) : quoteTwice c ≠ [] := by
  unfold quoteTwice
  split <;> simp

/-- The letters between single quotes. -/
theorem spells_single {c : Char} (hblank : isBlank c = false) (hbreak : isBreak c = false) :
    Spells false c (quoteTwice c) := by
  unfold quoteTwice
  split
  · subst c
    refine ⟨?_, ⟨'\'', ['\''], rfl, rfl, rfl⟩, by simp [isBreak]⟩
    intro s t after chars fuel a hrest h
    refine .get fun d hd => ?_
    rw [hd.rest, hrest]
    exact (gives_skip hrest (by simp [isBreak])).bind ((gives_demand 2 _).bind h)
  · exact spells_self hblank hbreak ‹_› (by simp)

/-- An escape between double quotes, when its reader gives the character. -/
theorem spells_escape {c letter : Char} {digits : List Char}
    (hletter : isBreak letter = false) (hdigits : ∀ d ∈ digits, isBreak d = false)
    (hreads : ∀ {s : Spot} {after : List Char}, s.rest = '\\' :: letter :: digits ++ after →
      Gives (readEscape letter) s c (s.pass ('\\' :: letter :: digits))) :
    Spells true c ('\\' :: letter :: digits) where
  reads := by
    intro s t after chars fuel a hrest h
    refine .get fun d hd => ?_
    rw [hd.rest, hrest]
    have hlater : Gives (do
        let escape ← readEscape letter
        Reader.demand 2
        quotedWord true fuel (escape :: chars)) s a t :=
      (hreads hrest).bind ((gives_demand 2 _).bind h)
    simpa [isBlank, show isBreak '\\' = false from rfl, hletter] using hlater
  starts := ⟨'\\', _, rfl, rfl, rfl⟩
  line := by
    intro d hd
    simp only [List.mem_cons] at hd
    obtain rfl | rfl | hd := hd
    · rfl
    · exact hletter
    · exact hdigits d hd

/-- A reader that is given a value gives it, and reads nothing. -/
theorem gives_lift {α : Type} {a : α} {o : Option α} (h : o = some a) (s : Spot) :
    Gives (liftM o : Reader α) s a s := by
  subst h
  exact fun c hc => ⟨c, rfl, hc⟩

/-- An escape with one letter. -/
theorem spells_letter {c letter : Char} (hlength : codeLength? letter = none)
    (hescape : escapedChar? letter = some c) (hletter : isBreak letter = false) :
    Spells true c ['\\', letter] := by
  refine spells_escape hletter (by simp) ?_
  intro s after hrest
  unfold readEscape
  rw [hlength]
  exact (gives_skip hrest (by simpa [isBreak] using hletter)).bind (gives_lift hescape _)

/-- An escape with a code. -/
theorem spells_code {c letter : Char} {digits : List Char}
    (hlength : codeLength? letter = some digits.length) (hcoded : codedChar? digits = some c)
    (hletter : isBreak letter = false) (hdigits : ∀ d ∈ digits, isBreak d = false) :
    Spells true c ('\\' :: letter :: digits) := by
  refine spells_escape hletter hdigits ?_
  intro s after hrest
  have hmarks : s.rest = ['\\', letter] ++ (digits ++ after) := hrest
  have hpast := Spot.rest_pass hmarks
  unfold readEscape
  rw [hlength]
  refine (gives_skip hmarks (by simpa [isBreak] using hletter)).bind ((gives_demand _ _).bind ?_)
  refine .get fun d hd => ?_
  have htake : d.rest.take digits.length = digits := by
    rw [hd.rest, hpast, List.take_left]
  simp only [htake, Nat.lt_irrefl, if_false]
  exact (gives_skip hpast hdigits).bind (gives_lift hcoded _)

/-! ### Codes in hexadecimal digits -/

/-- Adds a hexadecimal digit to a number. -/
def addHexDigit (n : Nat) (c : Char) : Option Nat :=
  (hexValue? c).map (n * 16 + ·)

/-- Hexadecimal digits are read as their values. -/
theorem hexValue?_upper_digitChar :
    ∀ d < 16, hexValue? (Nat.digitChar d).toUpper = some d := by
  decide

/-- Hexadecimal digits do not end a line. -/
theorem upper_digitChar_not_break : ∀ d < 16, isBreak (Nat.digitChar d).toUpper = false := by
  decide

/-- A number is read back from its hexadecimal digits. -/
theorem foldlM_toDigits (n : Nat) :
    ((Nat.toDigits 16 n).map Char.toUpper).foldlM addHexDigit 0 = some n := by
  induction n using Nat.strongRecOn with
  | ind n ih =>
    by_cases hn : n < 16
    · rw [Nat.toDigits_of_lt_base hn]
      simp [addHexDigit, hexValue?_upper_digitChar n hn]
    · have hlast := Nat.mod_lt n (y := 16) (by decide)
      rw [Nat.toDigits_of_base_le (by decide) (by omega), List.map_append, List.foldlM_append,
        ih (n / 16) (by omega)]
      simp [addHexDigit, hexValue?_upper_digitChar _ hlast]
      omega

/-- A code is made of hexadecimal digits. -/
theorem exists_digit_of_mem_upperHex {width n : Nat} {c : Char} (hc : c ∈ upperHex width n) :
    ∃ d < 16, c = (Nat.digitChar d).toUpper := by
  have hdigits : ∀ n, ∀ c ∈ Nat.toDigits 16 n, ∃ d < 16, c = Nat.digitChar d := by
    intro n
    induction n using Nat.strongRecOn with
    | ind n ih =>
      intro c hc
      by_cases hn : n < 16
      · rw [Nat.toDigits_of_lt_base hn, List.mem_singleton] at hc
        exact ⟨n, hn, hc⟩
      · rw [Nat.toDigits_of_base_le (by decide) (by omega)] at hc
        obtain hc | hc := List.mem_append.mp hc
        · exact ih (n / 16) (by omega) c hc
        · exact ⟨n % 16, Nat.mod_lt n (by decide), List.mem_singleton.mp hc⟩
  obtain hc | hc := List.mem_append.mp hc
  · exact ⟨0, by decide, List.eq_of_mem_replicate hc⟩
  · obtain ⟨digit, hdigit, rfl⟩ := List.mem_map.mp hc
    obtain ⟨d, hd, rfl⟩ := hdigits n digit hdigit
    exact ⟨d, hd, rfl⟩

/-- Zeros are read as zero. -/
theorem foldlM_zeros (k : Nat) : (List.replicate k '0').foldlM addHexDigit 0 = some 0 := by
  induction k with
  | zero => rfl
  | succ k ih =>
    rw [List.replicate_succ, List.foldlM_cons]
    exact ih

/-- The code of a character, in enough digits, stands for the character. -/
theorem codedChar?_upperHex {c : Char} {width : Nat} (hwidth : 0 < width)
    (hc : c.toNat < 16 ^ width) :
    codedChar? (upperHex width c.toNat) = some c ∧ (upperHex width c.toNat).length = width ∧
      ∀ d ∈ upperHex width c.toNat, isBreak d = false := by
  refine ⟨?_, ?_, ?_⟩
  · have hfold : (upperHex width c.toNat).foldlM addHexDigit 0 = some c.toNat := by
      rw [upperHex, List.foldlM_append, foldlM_zeros]
      exact foldlM_toDigits c.toNat
    have hvalid : ((0xD800 ≤ c.toNat && c.toNat ≤ 0xDFFF) || 0x10FFFF < c.toNat) = false := by
      have := c.valid
      simp only [UInt32.isValidChar, Nat.isValidChar] at this
      simp only [Char.toNat, Bool.or_eq_false_iff, Bool.and_eq_false_iff, decide_eq_false_iff_not]
      omega
    rw [codedChar?]
    show (List.foldlM addHexDigit 0 (upperHex width c.toNat) >>= _) = _
    rw [hfold]
    simp only [Option.bind_eq_bind, Option.bind_some, hvalid, Bool.false_eq_true, if_false,
      Char.ofNat_toNat]
  · have hlength := (Nat.length_toDigits_le_iff (b := 16) (by decide) hwidth).mpr hc
    simp only [upperHex, List.length_append, List.length_replicate, List.length_map]
    omega
  · intro d hd
    obtain ⟨digit, hdigit, rfl⟩ := exists_digit_of_mem_upperHex hd
    exact upper_digitChar_not_break digit hdigit

/-- The letters between double quotes. -/
theorem spells_escaped {always : Bool} {c : Char} (hspace : c = ' ' → always = true) :
    Spells true c (escaped always c) := by
  have hcode : ∀ {letter : Char} {width : Nat}, codeLength? letter = some width → 0 < width →
      isBreak letter = false → c.toNat < 16 ^ width →
        Spells true c ('\\' :: letter :: upperHex width c.toNat) := by
    intro letter width hlength hwidth hletter hc
    obtain ⟨hcoded, hdigits, hbreak⟩ := codedChar?_upperHex hwidth hc
    exact spells_code (hdigits.symm ▸ hlength) hcoded hletter hbreak
  unfold escaped
  split
  · rename_i hself
    simp only [Bool.and_eq_true, Bool.not_eq_true', decide_eq_true_eq] at hself
    obtain ⟨⟨⟨⟨halways, hplain⟩, hbreak⟩, hquote⟩, hslash⟩ := hself
    have hblank : isBlank c = false := by
      simp only [isBlank, Bool.or_eq_false_iff, decide_eq_false_iff_not]
      refine ⟨fun h => ?_, ?_⟩
      · exact Bool.false_ne_true (halways.symm.trans (hspace h))
      · rintro rfl
        exact Bool.false_ne_true hplain
    exact spells_self hblank hbreak hquote fun _ => hslash
  · split
    iterate 15 · exact spells_letter rfl rfl rfl
    split
    · exact hcode rfl (by decide) rfl (by omega)
    · split
      · exact hcode rfl (by decide) rfl (by omega)
      · have := c.valid
        simp only [UInt32.isValidChar, Nat.isValidChar] at this
        refine hcode rfl (by decide) rfl ?_
        simp only [Char.toNat]
        omega

/-! ### Double quotes -/

/-- The spelling of a word has no line break in it. -/
theorem Spells.line_flatMap {spell : Char → List Char} {word : List Char}
    (hword : ∀ c ∈ word, Spells double c (spell c)) :
    ∀ d ∈ word.flatMap spell, isBreak d = false := by
  intro d hd
  obtain ⟨c, hc, hd⟩ := List.mem_flatMap.mp hd
  exact (hword c hc).line d hd

/-- Letters start with no blank and no line break. -/
theorem Spells.head_flatMap {spell : Char → List Char} {v after : List Char}
    (hv : ∀ c ∈ v.head?, Spells double c (spell c))
    (hafter : ∀ c ∈ after.head?, isBlank c = false ∧ isBreak c = false) :
    ∀ c ∈ (v.flatMap spell ++ after).head?, isBlank c = false ∧ isBreak c = false := by
  intro c hc
  cases v with
  | nil => exact hafter c hc
  | cons d v =>
    obtain ⟨e, rest, he, hstarts⟩ := (hv d (by simp)).starts
    obtain rfl : e = c := by simpa [he] using hc
    exact hstarts

/-- **A text between double quotes is read back**, whatever it is. -/
theorem gives_readQuotedWords_double {always : Bool} {v after text : List Char} {fuel : Nat}
    (hrest : s.rest = v.flatMap (escaped always) ++ '"' :: after) (hcolumn : 0 < s.column)
    (hfuel : v.length < fuel) :
    Gives (readQuotedWords true fuel text) s (text.reverse ++ v)
      (s.pass (v.flatMap (escaped always) ++ ['"'])) := by
  obtain ⟨fuel, rfl⟩ := Nat.exists_eq_add_one_of_ne_zero (Nat.ne_zero_of_lt hfuel)
  have hspells : ∀ {c : Char}, (!always && decide (c = ' ')) = false →
      Spells true c (escaped always c) := by
    intro c hc
    refine spells_escaped fun hspace => ?_
    simpa [hspace] using hc
  induction v using words_induction (fun c => !always && decide (c = ' '))
    generalizing s fuel text with
  | word w hw =>
    exact gives_readQuotedWords_close (fun c hc => hspells (hw c hc)) hrest (by simp)
      (.inl hcolumn)
  | more w g v' hw hg hspaces hhead ih =>
    have hw' : ∀ c ∈ w, Spells true c (escaped always c) := fun c hc => hspells (hw c hc)
    have hspace : ∀ c ∈ g, c = ' ' ∧ escaped always c = [c] := by
      intro c hc
      obtain ⟨halways, rfl⟩ : always = false ∧ c = ' ' := by simpa using hspaces c hc
      rw [halways]
      exact ⟨rfl, rfl⟩
    have hgText : g.flatMap (escaped always) = g := flatMap_self fun c hc => (hspace c hc).2
    simp only [List.flatMap_append, hgText] at hrest ⊢
    have hline : ∀ c ∈ w.flatMap (escaped always) ++ g, isBreak c = false := by
      intro c hc
      obtain hc | hc := List.mem_append.mp hc
      · exact Spells.line_flatMap hw' c hc
      · rw [(hspace c hc).1]
        rfl
    have hgap : (Gap.addAll {} g).text = g := by
      rw [Gap.addAll_spaces fun c hc => (hspace c hc).1, Gap.text]
      simp
    have hlength := List.length_pos_iff.mpr hg
    simp only [List.length_append] at hfuel
    obtain ⟨fuel, rfl⟩ : ∃ n, fuel = n + 1 := Nat.exists_eq_add_one_of_ne_zero (by omega)
    rw [List.append_assoc, List.append_assoc] at hrest
    refine gives_readQuotedWords_gap hw' hrest hcolumn hg (fun c hc => .inl (hspace c hc).1)
      (Spells.head_flatMap (fun c hc => hspells (hhead c hc)) (by simp [isBlank, isBreak])) ?_
    rw [hgap]
    have hlater : Gives (readQuotedWords true (fuel + 1) ((w ++ g).reverseAux text))
        (s.pass (w.flatMap (escaped always) ++ g)) _ _ :=
      ih (Spot.rest_pass (by rw [hrest, List.append_assoc]))
        (by rw [(Spot.pass_line hline).1]; omega) fuel (by omega)
    rw [← Spot.pass_append] at hlater
    simpa [List.reverseAux_eq] using hlater

/-- **Text between double quotes is read back.** -/
theorem gives_readQuoted_double {v after : List Char} (hrest : s.rest = doubleQuoted v ++ after) :
    Gives (readQuoted true) s v (s.pass (doubleQuoted v)) := by
  have hopen : s.rest =
      '"' :: (v.flatMap (escaped (v.head? = some byteOrderMark)) ++ '"' :: after) := by
    rw [hrest, doubleQuoted]
    simp
  refine (gives_skip_one hopen rfl).bind (.get fun c hc => ?_)
  refine gives_readQuotedWords_double (Spot.rest_pass_cons hopen) ?_ ?_
  · rw [(Spot.pass_line (by simp [isBreak])).1]
    exact Nat.succ_pos _
  · have hfits := hc.fits
    have hlength : v.length ≤ (v.flatMap (escaped (v.head? = some byteOrderMark))).length := by
      refine length_le_flatMap fun c _ => ?_
      unfold escaped
      split <;> simp
    rw [Spot.rest_pass_cons hopen, List.length_append] at hfits
    rw [hc.total]
    omega

/-! ### Single quotes -/

/-- A text whose gaps survive between single quotes: no tab, no line break that is changed when it
is read, and none next to a space. -/
structure IsFolded (v : List Char) : Prop where
  tabless : ∀ c ∈ v, c ≠ '\t'
  breaks : ∀ c ∈ v, isBreak c = true → c ≠ '\n' ∧ c ≠ '\r' ∧ readBreak c = c
  breakSpace : holdsPair isBreak (· = ' ') v = false
  spaceBreak : holdsPair (· = ' ') isBreak v = false

/-- A text without some pair of characters has none in its parts. -/
theorem holdsPair_append {first second : Char → Bool} {x y : List Char}
    (h : holdsPair first second (x ++ y) = false) :
    holdsPair first second x = false ∧ holdsPair first second y = false := by
  induction x with
  | nil => exact ⟨rfl, h⟩
  | cons a x ih =>
    cases x with
    | nil =>
      refine ⟨rfl, ?_⟩
      cases y with
      | nil => rfl
      | cons b y =>
        simp only [List.cons_append, List.nil_append, holdsPair, Bool.or_eq_false_iff] at h
        exact h.2
    | cons b x =>
      simp only [List.cons_append, holdsPair, Bool.or_eq_false_iff] at h ih ⊢
      exact ⟨⟨h.1, (ih h.2).1⟩, (ih h.2).2⟩

namespace IsFolded

variable {v x y : List Char}

/-- Both parts of a folded text are folded. -/
theorem append (h : IsFolded (x ++ y)) : IsFolded x ∧ IsFolded y :=
  ⟨⟨fun c hc => h.tabless c (List.mem_append_left _ hc),
    fun c hc => h.breaks c (List.mem_append_left _ hc), (holdsPair_append h.breakSpace).1,
    (holdsPair_append h.spaceBreak).1⟩,
  ⟨fun c hc => h.tabless c (List.mem_append_right _ hc),
    fun c hc => h.breaks c (List.mem_append_right _ hc), (holdsPair_append h.breakSpace).2,
    (holdsPair_append h.spaceBreak).2⟩⟩

/-- A gap is made of spaces, or it is made of line breaks. -/
theorem uniform {g : List Char} (h : IsFolded g)
    (hg : ∀ c ∈ g, (isBlank c || isBreak c) = true) :
    (∀ c ∈ g, c = ' ') ∨ ∀ c ∈ g, isBreak c = true := by
  have hkind : ∀ c ∈ g, c = ' ' ∨ isBreak c = true := by
    intro c hc
    have htab := h.tabless c hc
    simpa [isBlank, htab] using hg c hc
  induction g with
  | nil => exact .inl (by simp)
  | cons a g ih =>
    obtain ⟨ha, hkind'⟩ := List.forall_mem_cons.mp hkind
    have hrest := ih (append (x := [a]) h).2 (List.forall_mem_cons.mp hg).2 hkind'
    cases g with
    | nil => simpa using ha
    | cons b g =>
      have hbreakSpace := h.breakSpace
      have hspaceBreak := h.spaceBreak
      simp only [holdsPair, Bool.or_eq_false_iff, Bool.and_eq_false_iff, decide_eq_false_iff_not]
        at hbreakSpace hspaceBreak
      obtain hspaces | hbreaks := hrest
      · refine .inl (List.forall_mem_cons.mpr ⟨ha.resolve_right fun hbreak => ?_, hspaces⟩)
        simp [hbreak, hspaces b List.mem_cons_self] at hbreakSpace
      · refine .inr (List.forall_mem_cons.mpr ⟨ha.resolve_left fun hspace => ?_, hbreaks⟩)
        simp [hspace, hbreaks b List.mem_cons_self] at hspaceBreak

/-- The gap of some line breaks and an indentation stands for the breaks. -/
theorem gap_text {g : List Char} (h : IsFolded g) (hg : ∀ c ∈ g, isBreak c = true) (hne : g ≠ [])
    (n : Nat) : (Gap.addAll {} (g ++ List.replicate n ' ')).text = g := by
  obtain ⟨c, g, rfl⟩ := List.exists_cons_of_ne_nil hne
  obtain ⟨hc, hg⟩ := List.forall_mem_cons.mp hg
  have hread : ∀ d ∈ c :: g, isBreak d = true → readBreak d = d :=
    fun d hd hbreak => (h.breaks d hd hbreak).2.2
  have hmap : g.map readBreak = g := by
    rw [List.map_congr_left fun d hd => hread d (List.mem_cons_of_mem c hd) (hg d hd), List.map_id']
  have hfirst : Gap.add {} c = { broken := true, firstBreak? := some c } := by
    simp [Gap.add, Gap.addBreak, isBlank_of_isBreak hc, hread c List.mem_cons_self hc]
  rw [List.cons_append, Gap.addAll_cons, hfirst, Gap.addAll_append, Gap.addAll_breaks rfl hg,
    Gap.addAll_broken rfl fun d hd => List.eq_of_mem_replicate hd, hmap, Gap.text]
  simp [(h.breaks c List.mem_cons_self hc).1]

end IsFolded

/-- A gap with the indentation that is written behind it stands for the gap, and a line has begun
behind it unless the text ends there. -/
theorem indentLines_gap {level : Nat} {w g v : List Char} (hfolded : IsFolded g) (hg : g ≠ [])
    (hkind : ∀ c ∈ g, (isBlank c || isBreak c) = true) (hv : ∀ c ∈ v.head?, isBreak c = false)
    (hw : ∀ c ∈ w, isBreak c = false) (hlevel : 0 < level) (hcolumn : 0 < s.column) :
    ∃ n, indentLines level false (g ++ v) = g ++ List.replicate n ' ' ++ indentLines level false v ∧
      (Gap.addAll {} (g ++ List.replicate n ' ')).text = g ∧
      (0 < (s.pass (w ++ (g ++ List.replicate n ' '))).column ∨ v = []) := by
  obtain hspaces | hbreaks := hfolded.uniform hkind
  · have hline : ∀ c ∈ g, isBreak c = false := by
      intro c hc
      rw [hspaces c hc]
      rfl
    refine ⟨0, ?_, ?_, .inl ?_⟩
    · rw [indentLines_line hline, List.replicate_zero, List.append_nil]
    · rw [List.replicate_zero, List.append_nil, Gap.addAll_spaces hspaces, Gap.text]
      simp
    · rw [List.replicate_zero, List.append_nil, (Spot.pass_line _).1]
      · omega
      · exact fun c hc => (List.mem_append.mp hc).elim (hw c) (hline c)
  · have hlines : indentLines level false (g ++ v) = g ++ indentLines level true v := by
      obtain ⟨c, g, rfl⟩ := List.exists_cons_of_ne_nil hg
      obtain ⟨hc, hbreaks⟩ := List.forall_mem_cons.mp hbreaks
      rw [List.cons_append, indentLines_break hc, indentLines_breaks hbreaks, List.cons_append]
    rw [hlines]
    cases v with
    | nil => exact ⟨0, by simp [indentLines], hfolded.gap_text hbreaks hg 0, .inr rfl⟩
    | cons c v =>
      refine ⟨level * step, ?_, hfolded.gap_text hbreaks hg _, .inl ?_⟩
      · rw [indentLines_fresh (hv c (by simp)), indentation, List.append_assoc]
      · have hlast := hbreaks _ (List.getLast_mem hg)
        rw [← List.dropLast_concat_getLast hg, List.append_assoc, List.singleton_append,
          ← List.append_assoc, (Spot.pass_indent s _ hlast _).1, step]
        omega

/-- **A folded text between single quotes is read back.** -/
theorem gives_readQuotedWords_single {level : Nat} {v after text : List Char} {fuel : Nat}
    (hv : IsFolded v) (hlevel : 0 < level)
    (hrest : s.rest = indentLines level false (v.flatMap quoteTwice) ++ '\'' :: after)
    (hafter : after.head? ≠ some '\'') (hcolumn : 0 < s.column ∨ v = []) (hfuel : v.length < fuel) :
    Gives (readQuotedWords false fuel text) s (text.reverse ++ v)
      (s.pass (indentLines level false (v.flatMap quoteTwice) ++ ['\''])) := by
  obtain ⟨fuel, rfl⟩ := Nat.exists_eq_add_one_of_ne_zero (Nat.ne_zero_of_lt hfuel)
  have hspells : ∀ {c : Char}, (isBlank c || isBreak c) = false →
      Spells false c (quoteTwice c) := by
    intro c hc
    rw [Bool.or_eq_false_iff] at hc
    exact spells_single hc.1 hc.2
  induction v using words_induction (fun c => isBlank c || isBreak c)
    generalizing s fuel text with
  | word w hw =>
    have hw' := fun c hc => hspells (hw c hc)
    rw [indentLines_self (Spells.line_flatMap hw')] at hrest ⊢
    refine gives_readQuotedWords_close hw' hrest (fun _ => hafter) (hcolumn.imp id ?_)
    rintro rfl
    rw [hrest]
    rfl
  | more w g v' hw hg hkind hhead ih =>
    have hcolumn : 0 < s.column := hcolumn.resolve_right (by simp [hg])
    have hw' := fun c hc => hspells (hw c hc)
    have hline : ∀ d ∈ w.flatMap quoteTwice, isBreak d = false := Spells.line_flatMap hw'
    have hgText : g.flatMap quoteTwice = g := by
      refine flatMap_self fun c hc => if_neg ?_
      rintro rfl
      cases hkind _ hc
    have hstarts : ∀ c ∈ (v'.flatMap quoteTwice ++ '\'' :: after).head?,
        isBlank c = false ∧ isBreak c = false :=
      Spells.head_flatMap (fun c hc => hspells (hhead c hc)) (by simp [isBlank, isBreak])
    have hstarts' : ∀ c ∈ (v'.flatMap quoteTwice).head?, isBreak c = false := by
      intro c hc
      refine (hstarts c ?_).2
      rw [List.head?_append, Option.mem_def.mp hc]
      rfl
    have hempty : v'.flatMap quoteTwice = [] → v' = [] := by
      intro h
      have hlength := length_le_flatMap (v := v') fun c _ => quoteTwice_ne_nil c
      rw [h] at hlength
      exact List.length_eq_zero_iff.mp (Nat.le_zero.mp hlength)
    obtain ⟨n, hlines, hgap, hcolumn'⟩ := indentLines_gap hv.append.1.append.2 hg hkind hstarts'
      hline hlevel hcolumn
    have htext : indentLines level false ((w ++ g ++ v').flatMap quoteTwice) =
        w.flatMap quoteTwice ++
          (g ++ List.replicate n ' ' ++ indentLines level false (v'.flatMap quoteTwice)) := by
      rw [List.flatMap_append, List.flatMap_append, hgText, List.append_assoc,
        indentLines_line hline, hlines]
    rw [htext] at hrest ⊢
    have hlength := List.length_pos_iff.mpr hg
    simp only [List.length_append] at hfuel
    obtain ⟨fuel, rfl⟩ : ∃ n, fuel = n + 1 := Nat.exists_eq_add_one_of_ne_zero (by omega)
    have hrest' : s.rest = w.flatMap quoteTwice ++ (g ++ List.replicate n ' ' ++
        (indentLines level false (v'.flatMap quoteTwice) ++ '\'' :: after)) := by
      rw [hrest]
      simp
    refine gives_readQuotedWords_gap hw' hrest' hcolumn (by simp [hg]) ?_ ?_ ?_
    · intro c hc
      obtain hc | hc := List.mem_append.mp hc
      · have htab := hv.tabless c (by simp [hc])
        have hbreak := hv.breaks c (by simp [hc])
        have := hkind c hc
        simp only [isBlank, htab, decide_false, Bool.or_false, Bool.or_eq_true, decide_eq_true_eq]
          at this
        exact this.imp id fun h => ⟨h, (hbreak h).2.1⟩
      · exact .inl (List.eq_of_mem_replicate hc)
    · intro c hc
      refine hstarts c ?_
      rwa [List.head?_append, head?_indentLines, ← List.head?_append] at hc
    · have hlater : Gives (readQuotedWords false (fuel + 1) ((w ++ g).reverseAux text))
          (s.pass (w.flatMap quoteTwice ++ (g ++ List.replicate n ' '))) _ _ :=
        ih hv.append.2 (Spot.rest_pass (by rw [hrest']; simp)) (hcolumn'.imp id hempty)
          fuel (by omega)
      rw [← Spot.pass_append] at hlater
      rw [hgap]
      simpa [List.reverseAux_eq] using hlater

/-- A text between single quotes is written with its lines indented and its quotes twice. -/
theorem singleQuoted_eq (level : Nat) (v : List Char) : singleQuoted level v =
    '\'' :: indentLines level false (v.flatMap quoteTwice) ++ ['\''] := rfl

/-- **Text between single quotes is read back.** -/
theorem gives_readQuoted_single {level : Nat} {v after : List Char} (hv : IsFolded v)
    (hlevel : 0 < level) (hrest : s.rest = singleQuoted level v ++ after)
    (hafter : after.head? ≠ some '\'') :
    Gives (readQuoted false) s v (s.pass (singleQuoted level v)) := by
  have hopen : s.rest =
      '\'' :: (indentLines level false (v.flatMap quoteTwice) ++ '\'' :: after) := by
    rw [hrest, singleQuoted_eq]
    simp
  refine (gives_skip_one hopen rfl).bind (.get fun c hc => ?_)
  refine gives_readQuotedWords_single hv hlevel (Spot.rest_pass_cons hopen) hafter (.inl ?_) ?_
  · rw [(Spot.pass_line (by simp [isBreak])).1]
    exact Nat.succ_pos _
  · have hfits := hc.fits
    have hletters := length_le_flatMap (v := v) fun c _ => quoteTwice_ne_nil c
    have hlines : _ ≤ (indentLines level false _).length :=
      length_le_indentLines false (v.flatMap quoteTwice)
    rw [Spot.rest_pass_cons hopen, List.length_append] at hfits
    rw [hc.total]
    omega

end DocHarvest.Yaml
