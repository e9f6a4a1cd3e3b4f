import DocHarvest.Proofs.Yaml.Words

/-!
# Literal Blocks

A literal block is read back line by line. Its lines start in a column that its first line shows,
or that a mark gives; the marks also say how many of the line breaks at its end belong to it.

One kind of text does not survive: a tab at the start of the text is no indentation, though no mark
gives one then, so the block is refused.

## Main definitions

* `Yaml.Block.Holds` — what a block holds that has been read so far.
* `Yaml.closedLines` — the lines of a text, the last of which ends too.

## Main results

* `Yaml.gives_readBreaks` — empty lines and an indentation.
* `Yaml.gives_readLines` — the lines of a block.
* `Yaml.gives_readBlock` — a literal block is read back, unless it starts with a tab.
-/

namespace DocHarvest.Yaml

variable {s t : Spot}

/-! ### Empty lines and indentations -/

/-- Moving over an indentation, which ends at a known column or where the spaces end. -/
theorem gives_skipIndentation {indentation k fuel : Nat} {after : List Char}
    (hrest : s.rest = List.replicate k ' ' ++ after)
    (hknown : indentation ≠ 0 → s.column + k ≤ indentation)
    (hafter : indentation = 0 ∨ s.column + k < indentation → after.head? ≠ some ' ')
    (hfuel : k ≤ fuel) :
    Gives (skipIndentation indentation fuel) s () (s.pass (List.replicate k ' ')) := by
  induction k generalizing s fuel with
  | zero =>
    cases fuel with
    | zero => exact .pure _ _
    | succ fuel =>
      refine .get fun c hc => ?_
      rw [List.replicate_zero, List.nil_append] at hrest
      have hstop :
          ¬(((indentation = 0 || c.column < indentation) && c.head? = some ' ') = true) := by
        rw [hc.column, hc.head?, hrest]
        simpa using hafter
      rw [if_neg hstop]
      exact .pure _ _
  | succ k ih =>
    cases fuel with
    | zero => exact absurd hfuel (Nat.not_succ_le_zero k)
    | succ fuel =>
      rw [List.replicate_succ, List.cons_append] at hrest
      have hcolumn : (s.pass [' ']).column = s.column + 1 :=
        (Spot.pass_line (by simp [isBreak])).1
      refine .get fun c hc => ?_
      have hgo : ((indentation = 0 || c.column < indentation) && c.head? = some ' ') = true := by
        rw [hc.column, hc.head?, hrest]
        simp only [List.head?_cons, decide_true, Bool.and_true, Bool.or_eq_true, decide_eq_true_eq]
        omega
      rw [if_pos hgo]
      refine (gives_skip_one hrest rfl).bind ((gives_demand 1 _).bind ?_)
      refine ih (Spot.rest_pass_cons hrest) ?_ ?_ (by omega)
      · rw [hcolumn]
        omega
      · rw [hcolumn]
        exact fun h => hafter (by omega)

/-- The indentation of one line, and what is done behind it. No tab may follow an indentation that
is not known, or not complete. -/
theorem gives_readBreaks_step {b b' : Breaks} {after : List Char} {k fuel : Nat} {u : Spot}
    (hrest : s.rest = List.replicate k ' ' ++ after) (hcolumn : s.column = 0)
    (hknown : b.indentation ≠ 0 → k ≤ b.indentation)
    (hafter : b.indentation = 0 ∨ k < b.indentation → ∀ c ∈ after.head?, isBlank c = false)
    (h : Gives
      (match after.head? with
      | some ch =>
        if isBreak ch then do
          Reader.skipBreak
          readBreaks fuel
            { b with widest := max b.widest k, breaks := readBreak ch :: b.breaks }
        else pure { b with widest := max b.widest k }
      | none => pure { b with widest := max b.widest k })
      (s.pass (List.replicate k ' ')) b' u) :
    Gives (readBreaks (fuel + 1) b) s b' u := by
  refine (gives_demand 1 s).bind (.get fun c hc => ?_)
  have hk : k ≤ c.total := by
    have hfits := hc.fits
    rw [hrest, List.length_append, List.length_replicate] at hfits
    rw [hc.total]
    omega
  have hspace : b.indentation = 0 ∨ s.column + k < b.indentation → after.head? ≠ some ' ' := by
    intro hopen hhead
    rw [hcolumn, Nat.zero_add] at hopen
    cases hafter hopen ' ' hhead
  refine (gives_skipIndentation hrest (by rwa [hcolumn, Nat.zero_add]) hspace hk).bind ?_
  refine .get fun c' hc' => ?_
  have hcolumn' : c'.column = k := by
    rw [hc'.column, Spot.column_pass_spaces hcolumn]
  have hhead : c'.head? = after.head? := by
    rw [hc'.head?, Spot.rest_pass hrest]
  have htab : ((b.indentation = 0 || k < b.indentation) && after.head? = some '\t') = false := by
    rw [Bool.eq_false_iff]
    intro htab
    simp only [Bool.and_eq_true, Bool.or_eq_true, decide_eq_true_eq] at htab
    cases hafter htab.1 '\t' htab.2
  rw [hcolumn', hhead]
  simp only [htab, Bool.false_eq_true, if_false]
  exact h

/-- **Empty lines and the indentation of the line behind them.** -/
theorem gives_readBreaks {b : Breaks} {g after : List Char} {k fuel : Nat}
    (hrest : s.rest = g ++ (List.replicate k ' ' ++ after)) (hcolumn : s.column = 0)
    (hg : ∀ c ∈ g, isBreak c = true ∧ c ≠ '\r' ∧ readBreak c = c)
    (hknown : b.indentation ≠ 0 → k ≤ b.indentation)
    (hafter : ∀ c ∈ after.head?, isBreak c = false ∧
      (b.indentation = 0 ∨ k < b.indentation → isBlank c = false))
    (hfuel : g.length < fuel) :
    Gives (readBreaks fuel b) s
      { b with breaks := g.reverse ++ b.breaks, widest := max b.widest k }
      (s.pass (g ++ List.replicate k ' ')) := by
  obtain ⟨fuel, rfl⟩ := Nat.exists_eq_add_one_of_ne_zero (Nat.ne_zero_of_lt hfuel)
  induction g generalizing s fuel b with
  | nil =>
    refine gives_readBreaks_step hrest hcolumn hknown (fun hopen c hc => (hafter c hc).2 hopen) ?_
    cases hhead : after.head? with
    | none => exact .pure _ _
    | some ch =>
      simp only [(hafter ch hhead).1, Bool.false_eq_true, if_false]
      exact .pure _ _
  | cons ch g ih =>
    obtain ⟨⟨hbreak, hreturn, hread⟩, hg⟩ := List.forall_mem_cons.mp hg
    obtain ⟨fuel, rfl⟩ : ∃ n, fuel = n + 1 := Nat.exists_eq_add_one_of_ne_zero (by
      rw [List.length_cons] at hfuel
      omega)
    refine gives_readBreaks_step (k := 0) hrest hcolumn (fun _ => Nat.zero_le _) ?_ ?_
    · intro _ c hc
      obtain rfl : ch = c := by simpa using hc
      exact isBlank_of_isBreak hbreak
    · simp only [List.cons_append, List.head?_cons, hbreak, if_true, List.replicate_zero,
        Spot.pass_nil, Nat.max_zero, hread]
      refine (gives_skipBreak hrest hbreak hreturn).bind ?_
      have hcolumn' : (s.pass [ch]).column = 0 := (Spot.pass_indent s [] hbreak 0).1
      have hlater := ih (b := { b with breaks := ch :: b.breaks }) (Spot.rest_pass_cons hrest)
        hcolumn' hg hknown hafter fuel (by simpa using hfuel)
      rw [← Spot.pass_append] at hlater
      simpa using hlater

/-! ### The lines of a block -/

/-- A block has been read as far as a text goes. Its line breaks at the end are kept apart, the one
after its last line from those after it. -/
structure Block.Holds (block : Block) (text : List Char) : Prop where
  whole : block.text.reverse ++ block.lineBreak ++ block.emptyLines = text
  breaks : ∀ c ∈ block.lineBreak ++ block.emptyLines, isBreak c = true
  last : ∀ c ∈ block.text.head?, isBreak c = false
  single : block.text ≠ [] → block.lineBreak.length = 1
  blank : block.text = [] → block.lineBreak = []

/-- A line, the break behind it and empty lines more. -/
theorem Block.Holds.add {block : Block} {text line empties : List Char} {b : Char}
    (h : block.Holds text) (hline : ∀ c ∈ line, isBreak c = false) (hne : line ≠ [])
    (hb : isBreak b = true) (hempties : ∀ c ∈ empties, isBreak c = true) :
    Block.Holds { block.add false line [b] with emptyLines := empties }
      (text ++ line ++ b :: empties) where
  whole := by
    rw [← h.whole]
    simp [Block.add, List.reverseAux_eq]
  breaks := by simpa [Block.add, hb] using hempties
  last := by
    have hhead : (block.add false line [b]).text.head? = some (line.getLast hne) := by
      simp [Block.add, List.reverseAux_eq, List.head?_append, List.getLast?_eq_some_getLast hne]
    intro c hc
    obtain rfl : line.getLast hne = c := Option.some.inj (hhead.symm.trans hc)
    exact hline _ (List.getLast_mem hne)
  single := fun _ => rfl
  blank := by
    intro hempty
    simp [Block.add, List.reverseAux_eq, hne] at hempty

/-- Line breaks that are read as they are. -/
def KeepsBreaks (v : List Char) : Prop :=
  ∀ c ∈ v, isBreak c = true → c ≠ '\r' ∧ readBreak c = c

/-- How many spaces stand before what follows: the indentation of a text's first line, or that
of the line behind an empty text. -/
def leadingSpaces (level columns : Nat) (v : List Char) : Nat :=
  if v.isEmpty then columns else level * step

section Lines

variable {level columns : Nat} {next v : List Char}

/-- The spaces before a line, and what cannot be taken for more of them. -/
theorem indentLines_leading (honset : Onset columns next) (hcolumns : columns < level * step)
    (hv : ∀ c ∈ v.head?, isBreak c = false) :
    leadingSpaces level columns v ≤ level * step ∧
      ∃ after, indentLines level true v ++ (List.replicate columns ' ' ++ next) =
          List.replicate (leadingSpaces level columns v) ' ' ++ after ∧
        (v ≠ [] → after.head? = v.head?) ∧ ∀ c ∈ after.head?, isBreak c = false ∧
          (leadingSpaces level columns v < level * step → isBlank c = false) := by
  cases v with
  | nil =>
    refine ⟨Nat.le_of_lt hcolumns, next, rfl, fun h => absurd rfl h, fun c hc => ?_⟩
    exact ⟨(honset.head c hc).2.1, fun _ => (honset.head c hc).1⟩
  | cons c v =>
    have hc := hv c (by simp)
    have hhead : (indentLines level false (c :: v) ++ (List.replicate columns ' ' ++ next)).head? =
        some c := by
      rw [List.head?_append, head?_indentLines]
      rfl
    refine ⟨Nat.le_refl _, _, ?_, fun _ => hhead, fun d hd => ?_⟩
    · rw [indentLines_fresh hc, List.append_assoc]
      rfl
    · rw [hhead] at hd
      obtain rfl : c = d := by simpa using hd
      exact ⟨hc, fun h => absurd h (Nat.lt_irrefl _)⟩

/-- A line, the break behind it, and empty lines. -/
theorem indentLines_block {w g : List Char} {b : Char} (hw : ∀ c ∈ w, isBreak c = false)
    (hne : w ≠ []) (hb : isBreak b = true) (hg : ∀ c ∈ g, isBreak c = true) (v : List Char) :
    indentLines level true (w ++ b :: g ++ v) =
      List.replicate (level * step) ' ' ++ (w ++ b :: (g ++ indentLines level true v)) := by
  obtain ⟨c, w, rfl⟩ := List.exists_cons_of_ne_nil hne
  have hc := hw c List.mem_cons_self
  rw [List.append_assoc, List.cons_append, indentLines_fresh hc, ← List.cons_append,
    indentLines_line hw, show b :: g ++ v = b :: (g ++ v) from rfl, indentLines_break hb,
    indentLines_breaks hg]
  rfl

/-- A line of a block, with the empty lines and the indentation behind it. -/
theorem gives_readLines_step {indentation k fuel : Nat} {block block' : Block}
    {w g after : List Char} {b : Char} {u : Spot} (hcolumn : s.column = indentation)
    (hrest : s.rest = w ++ b :: (g ++ (List.replicate k ' ' ++ after)))
    (hw : ∀ c ∈ w, isBreak c = false) (hbreaks : ∀ c ∈ b :: g, isBreak c = true)
    (hkeeps : KeepsBreaks (b :: g)) (hk : indentation ≠ 0 → k ≤ indentation)
    (hafter : ∀ c ∈ after.head?, isBreak c = false ∧
      (indentation = 0 ∨ k < indentation → isBlank c = false))
    (h : Gives
      (readLines false indentation fuel { block.add false w [b] with emptyLines := g })
      (s.pass (w ++ b :: (g ++ List.replicate k ' '))) block' u) :
    Gives (readLines false indentation (fuel + 1) block) s block' u := by
  have hkept : ∀ c ∈ b :: g, isBreak c = true ∧ c ≠ '\r' ∧ readBreak c = c :=
    fun c hc => ⟨hbreaks c hc, hkeeps c hc (hbreaks c hc)⟩
  obtain ⟨⟨hb, hreturn, hread⟩, hg⟩ := List.forall_mem_cons.mp hkept
  have hbreak := Spot.rest_pass hrest
  have hempty := Spot.rest_pass_cons hbreak
  have hstart : ((s.pass w).pass [b]).column = 0 := by
    rw [← Spot.pass_append]
    exact (Spot.pass_indent s w hb 0).1
  refine .get fun c hc => ?_
  have hgo : (decide (c.column ≠ indentation) || c.rest.isEmpty) = false := by
    rw [hc.column, hc.rest, hcolumn, hrest]
    simp
  have hfuel : g.length < c.total + 1 := by
    have hfits := hc.fits
    rw [hrest] at hfits
    simp only [List.length_append, List.length_cons] at hfits
    rw [hc.total]
    omega
  rw [if_neg (Bool.eq_false_iff.mp hgo)]
  refine (gives_takeWhile hrest (fun d hd => ⟨by simp [hw d hd], hw d hd⟩) (by simp [hb])).bind ?_
  refine (gives_head? _).bind ((gives_skipBreak hbreak hb hreturn).bind ?_)
  refine (gives_readBreaks hempty hstart hg hk hafter hfuel).bind ?_
  have hpass : s.pass (w ++ b :: (g ++ List.replicate k ' ')) =
      ((s.pass w).pass [b]).pass (g ++ List.replicate k ' ') := by
    rw [← Spot.pass_append, ← Spot.pass_append]
    simp
  rw [hbreak, ← hpass]
  simpa [hread] using h

/-- **The lines of a block** are read up to a line that starts further to the left. -/
theorem gives_readLines {fuel : Nat} {block : Block} {done : List Char} (hv : KeepsBreaks v)
    (hends : ∀ c ∈ v.getLast?, isBreak c = true) (hstarts : ∀ c ∈ v.head?, isBreak c = false)
    (honset : Onset columns next) (hcolumns : columns < level * step) (hcolumn : s.column = 0)
    (hrest : s.rest = indentLines level true v ++ (List.replicate columns ' ' ++ next))
    (hblock : block.Holds done) (hfuel : v.length < fuel) :
    ∃ block' : Block, block'.Holds (done ++ v) ∧
      Gives (readLines false (level * step) fuel block)
        (s.pass (List.replicate (leadingSpaces level columns v) ' ')) block'
        (s.pass (indentLines level true v ++ List.replicate columns ' ')) := by
  obtain ⟨fuel, rfl⟩ := Nat.exists_eq_add_one_of_ne_zero (Nat.ne_zero_of_lt hfuel)
  induction v using words_induction isBreak generalizing s fuel block done with
  | word w hw =>
    obtain rfl : w = [] := by
      cases hlast : w.getLast? with
      | none => exact List.getLast?_eq_none_iff.mp hlast
      | some c =>
        have := hw c (List.mem_of_getLast? hlast)
        exact absurd (hends c hlast) (by simp [this])
    refine ⟨block, by rwa [List.append_nil], ?_⟩
    refine .get fun c hc => ?_
    have hleft : (decide (c.column ≠ level * step) || c.rest.isEmpty) = true := by
      rw [hc.column, Spot.column_pass_spaces hcolumn]
      simp [leadingSpaces, Nat.ne_of_lt hcolumns]
    rw [if_pos hleft]
    exact .pure _ _
  | more w g v' hw hg hbreaks hhead ih =>
    obtain ⟨b, g, rfl⟩ := List.exists_cons_of_ne_nil hg
    have hne : w ≠ [] := by
      rintro rfl
      exact absurd (hstarts b (by simp)) (by simp [hbreaks b List.mem_cons_self])
    obtain ⟨hb, hbreaks'⟩ := List.forall_mem_cons.mp hbreaks
    obtain ⟨hle, after, hafter, -, hstop⟩ := indentLines_leading honset hcolumns hhead
    have hlines : indentLines level true (w ++ b :: g ++ v') = _ :=
      indentLines_block hw hne hb hbreaks' v'
    have hleading : leadingSpaces level columns (w ++ b :: g ++ v') = level * step := by
      simp [leadingSpaces]
    have hline : (s.pass (List.replicate (level * step) ' ')).rest =
        w ++ b :: (g ++ (List.replicate (leadingSpaces level columns v') ' ' ++ after)) := by
      refine Spot.rest_pass ?_
      rw [hrest, hlines, ← hafter]
      simp
    obtain ⟨t, ht⟩ : ∃ t, t = (s.pass (List.replicate (level * step) ' ')).pass (w ++ b :: g) :=
      ⟨_, rfl⟩
    have htcolumn : t.column = 0 := by
      have hstart := (Spot.pass_indent (s.pass (List.replicate (level * step) ' ')) w hb 0).1
      have := Spot.column_pass_breaks hstart hbreaks'
      rwa [← Spot.pass_append, List.append_assoc, List.replicate_zero, List.singleton_append, ← ht]
        at this
    have htrest : t.rest = indentLines level true v' ++ (List.replicate columns ' ' ++ next) := by
      rw [ht, hafter]
      exact Spot.rest_pass (by rw [hline]; simp)
    have hlast' : ∀ c ∈ v'.getLast?, isBreak c = true := by
      intro c hc
      refine hends c ?_
      rw [List.getLast?_append, Option.mem_def.mp hc]
      rfl
    simp only [List.length_append, List.length_cons] at hfuel
    obtain ⟨fuel, rfl⟩ : ∃ n, fuel = n + 1 := Nat.exists_eq_add_one_of_ne_zero (by omega)
    obtain ⟨block', hholds, hlater⟩ := ih (fun c hc => hv c (by simp [hc])) hlast' hhead htcolumn
      htrest (hblock.add hw hne hb hbreaks') fuel (by omega)
    refine ⟨block', by simpa using hholds, ?_⟩
    rw [hleading, hlines]
    refine gives_readLines_step (Spot.column_pass_spaces hcolumn _) hline hw hbreaks
      (fun c hc => hv c (List.mem_append_left _ (List.mem_append_right _ hc))) (fun _ => hle) ?_ ?_
    · exact fun c hc => ⟨(hstop c hc).1, fun hopen => (hstop c hc).2 (by omega)⟩
    · simp only [ht, ← Spot.pass_append] at hlater
      rw [← Spot.pass_append]
      simpa using hlater

end Lines

/-! ### The line of the marks -/

/-- The mark of a chomping. -/
def Chomping.mark : Chomping → List Char
  | clip => []
  | strip => ['-']
  | keep => ['+']

/-- The characters that end a line. -/
theorem isBreak_cases {c : Char} (h : isBreak c = true) :
    c = '\n' ∨ c = '\r' ∨ c = '\x85' ∨ c = '\u2028' ∨ c = '\u2029' := by
  simpa [isBreak, or_assoc] using h

section Header

variable {b : Char} {after : List Char}

/-- The chomping mark of a block is read, if there is one. -/
theorem gives_readChomping (chomping : Chomping) (hb : isBreak b = true)
    (hrest : s.rest = chomping.mark ++ b :: after) :
    Gives readChomping s (if chomping = .clip then none else some chomping)
      (s.pass chomping.mark) := by
  refine (gives_head? s).bind ?_
  cases chomping with
  | clip =>
    rw [hrest]
    obtain rfl | rfl | rfl | rfl | rfl := isBreak_cases hb <;> exact .pure _ _
  | strip =>
    rw [hrest]
    exact (gives_skip_one hrest rfl).bind (.pure _ _)
  | keep =>
    rw [hrest]
    exact (gives_skip_one hrest rfl).bind (.pure _ _)

/-- No mark for the indentation is read where the line ends. -/
theorem gives_readIncrement_none (hb : isBreak b = true) (hrest : s.rest = b :: after) :
    Gives readIncrement s none s := by
  refine (gives_head? s).bind ?_
  rw [hrest]
  obtain rfl | rfl | rfl | rfl | rfl := isBreak_cases hb <;> exact .pure _ _

/-- **The marks of a block**: its indentation, if it is given, and its chomping. -/
theorem gives_readMarks (given : Bool) (chomping : Chomping) (hb : isBreak b = true)
    (hrest : s.rest = (if given then ['4'] else []) ++ (chomping.mark ++ b :: after)) :
    Gives readMarks s (chomping, if given then 4 else 0)
      (s.pass ((if given then ['4'] else []) ++ chomping.mark)) := by
  refine (gives_demand 1 s).bind ?_
  cases given with
  | true =>
    have hmark := Spot.rest_pass hrest
    have hnone : Gives readChomping s none s := by
      refine (gives_head? s).bind ?_
      rw [hrest]
      exact .pure _ _
    have hfour : Gives readIncrement s (some 4) (s.pass ['4']) := by
      refine (gives_head? s).bind ?_
      rw [hrest]
      exact (gives_skip_one hrest rfl).bind (.pure _ _)
    refine hnone.bind (hfour.bind ((gives_demand 1 _).bind ?_))
    refine (gives_readChomping chomping hb hmark).bind ?_
    rw [Spot.pass_append]
    cases chomping <;> exact .pure _ _
  | false =>
    have hend := Spot.rest_pass hrest
    refine (gives_readChomping chomping hb hrest).bind ?_
    cases chomping with
    | clip => exact (gives_readIncrement_none hb hrest).bind (.pure _ _)
    | strip =>
      exact (gives_demand 1 _).bind
        ((gives_readIncrement_none hb (Spot.rest_pass hrest)).bind (.pure _ _))
    | keep =>
      exact (gives_demand 1 _).bind
        ((gives_readIncrement_none hb (Spot.rest_pass hrest)).bind (.pure _ _))

/-- The line of the marks ends behind them. -/
theorem gives_endHeader (hb : isBreak b = true) (hreturn : b ≠ '\r') (hrest : s.rest = b :: after) :
    Gives endHeader s () (s.pass [b]) := by
  have hblank := isBlank_of_isBreak hb
  have hhash : b ≠ '#' := by
    rintro rfl
    cases hb
  have hskip : Gives (Reader.skipWhile isBlank) s () s :=
    gives_skipWhile (List.nil_append (b :: after) ▸ hrest) (by simp) (by simp [hblank])
  refine hskip.bind ((gives_head? s).bind ?_)
  rw [hrest, List.head?_cons, if_neg (by simpa using hhash)]
  refine (gives_head? s).bind ?_
  rw [hrest, List.head?_cons]
  simp only [atLineEnd, atBreak, Option.map_some, Option.getD_some, hb, Bool.not_true,
    Bool.false_eq_true, if_false, if_true]
  exact gives_skipBreak hrest hb hreturn

end Header

/-! ### The end of a block -/

/-- The lines of a text, the last of which ends too. -/
def closedLines (v : List Char) : List Char :=
  if v.isEmpty then [] else endLine v

/-- A text that ends with a line break has ended its last line. -/
theorem closedLines_of_break {x : List Char} {b : Char} (hb : isBreak b = true) :
    closedLines (x ++ [b]) = x ++ [b] := by
  simp [closedLines, endLine, hb]

/-- The last line of any other text ends with a line feed. -/
theorem closedLines_of_not_break {x : List Char} {c : Char} (hc : isBreak c = false) :
    closedLines (x ++ [c]) = x ++ [c] ++ ['\n'] := by
  simp [closedLines, endLine, hc]

/-- The text of a block is what it holds up to the line breaks at its end. -/
theorem Block.Holds.text_eq {block : Block} {text : List Char} (h : block.Holds text) :
    block.text = text.reverse.dropWhile isBreak := by
  have hkept : block.text.dropWhile isBreak = block.text := by
    cases htext : block.text with
    | nil => rfl
    | cons c text => simp [h.last c (by simp [htext])]
  rw [← h.whole, List.append_assoc, List.reverse_append, List.reverse_reverse,
    List.dropWhile_append_of_pos, hkept]
  intro c hc
  exact h.breaks c (List.mem_reverse.mp hc)

/-- One line break at the end belongs to the last line. -/
theorem Block.Holds.chomp_clip {block : Block} {y : List Char} {before last : Char}
    (h : block.Holds (y ++ [before] ++ [last])) (hlast : isBreak last = true)
    (hbefore : isBreak before = false) : block.chomp .clip = y ++ [before, last] := by
  have htext : block.text = before :: y.reverse := by
    rw [h.text_eq]
    simp [hlast, hbefore]
  have hwhole := h.whole
  obtain ⟨b, hb⟩ := List.length_eq_one_iff.mp (h.single (by simp [htext]))
  rw [htext, hb] at hwhole
  have hempty : block.emptyLines = [] := by simpa using congrArg List.length hwhole
  rw [hempty, List.append_nil] at hwhole
  rw [Block.chomp, htext, hb, hwhole, List.append_assoc]
  rfl

/-- **The mark of a chomping** gives back the end of a text. -/
theorem exists_chomping {v : List Char} (hv : v ≠ []) :
    ∃ chomping : Chomping, chompingMark v = chomping.mark ∧
      ∀ block : Block, block.Holds (closedLines v) → block.chomp chomping = v := by
  obtain ⟨x, last, rfl⟩ : ∃ x last, v = x ++ [last] :=
    ⟨_, _, (List.dropLast_concat_getLast hv).symm⟩
  cases hlast : isBreak last with
  | false =>
    refine ⟨.strip, by simp [chompingMark, hlast, Chomping.mark], fun block hblock => ?_⟩
    rw [closedLines_of_not_break hlast] at hblock
    rw [Block.chomp, hblock.text_eq]
    simp [show isBreak '\n' = true from rfl, hlast]
  | true =>
    cases hx : x.reverse with
    | nil =>
      obtain rfl : x = [] := List.reverse_eq_nil_iff.mp hx
      refine ⟨.keep, by simp [chompingMark, hlast, Chomping.mark], fun block hblock => ?_⟩
      rw [closedLines_of_break hlast] at hblock
      exact hblock.whole
    | cons before others =>
      obtain rfl : x = others.reverse ++ [before] := by
        rw [← List.reverse_reverse x, hx, List.reverse_cons]
      cases hbefore : isBreak before with
      | true =>
        refine ⟨.keep, by simp [chompingMark, hlast, hbefore, Chomping.mark],
          fun block hblock => ?_⟩
        rw [closedLines_of_break hlast] at hblock
        exact hblock.whole
      | false =>
        refine ⟨.clip, by simp [chompingMark, hlast, hbefore, Chomping.mark],
          fun block hblock => ?_⟩
        rw [closedLines_of_break hlast] at hblock
        rw [hblock.chomp_clip hlast hbefore, List.append_assoc, List.singleton_append]

/-! ### Literal blocks -/

section Literal

variable {level columns : Nat} {next v : List Char}

/-- The end of a line is at the end of the second of two texts. -/
theorem endLine_append {x y : List Char} (hy : y ≠ []) : endLine (x ++ y) = x ++ endLine y := by
  unfold endLine
  rw [List.getLast?_append, List.getLast?_eq_some_getLast hy, Option.some_or]
  split <;> simp

/-- Indentation leaves the last character. -/
theorem getLast?_indentLines (fresh : Bool) (v : List Char) :
    (indentLines level fresh v).getLast? = v.getLast? := by
  induction v generalizing fresh with
  | nil => rfl
  | cons c v ih =>
    unfold indentLines
    split
    · rw [List.getLast?_cons, List.getLast?_cons, ih]
    · rw [List.getLast?_append, List.getLast?_cons, List.getLast?_cons, ih, Option.some_or]

/-- A line break at the end stays at the end. -/
theorem indentLines_append_break {b : Char} (hb : isBreak b = true) (fresh : Bool)
    (v : List Char) : indentLines level fresh (v ++ [b]) = indentLines level fresh v ++ [b] := by
  induction v generalizing fresh with
  | nil => exact indentLines_break hb fresh []
  | cons c v ih =>
    simp only [List.cons_append, indentLines, ih]
    split <;> simp

/-- A text's last line ends where the last of its indented lines does. -/
theorem endLine_indentLines (fresh : Bool) (v : List Char) :
    endLine (indentLines level fresh v) = indentLines level fresh (endLine v) := by
  unfold endLine
  rw [getLast?_indentLines]
  split
  · rfl
  · rw [indentLines_append_break rfl]

/-- The lines that a literal block is written on. -/
theorem endLine_literalBlock (level : Nat) (hv : v ≠ []) :
    endLine (literalBlock level v) = '|' :: (indentationMark v ++ (chompingMark v ++
      '\n' :: indentLines level true (closedLines v))) := by
  have hne : indentLines level true v ≠ [] := by
    have : v.length ≤ (indentLines level true v).length := length_le_indentLines true v
    exact List.ne_nil_of_length_pos (Nat.lt_of_lt_of_le (List.length_pos_iff.mpr hv) this)
  have hlines : closedLines v = endLine v := by
    rw [closedLines, if_neg (by simpa using hv)]
  have hblock : literalBlock level v =
      ('|' :: indentationMark v ++ chompingMark v ++ ['\n']) ++ indentLines level true v := by
    simp [literalBlock]
  rw [hblock, endLine_append hne, endLine_indentLines, hlines]
  simp

/-- Whether the indentation of a text's block is marked, since the text does not start with a
character that shows it. -/
def marksIndentation (v : List Char) : Bool :=
  atBreak v.head? || v.head? = some ' '

/-- The mark of the indentation is the width of a level. -/
theorem indentationMark_eq (v : List Char) :
    indentationMark v = if marksIndentation v then ['4'] else [] := by
  cases v with
  | nil => rfl
  | cons c v =>
    have hcomm : marksIndentation (c :: v) = (c = ' ' || isBreak c) := by
      simp [marksIndentation, atBreak, Bool.or_comm]
    rw [hcomm]
    rfl

/-- A block's empty lines at its start, and its indentation: as it is marked, or as its first line
shows it. -/
theorem gives_settleBreaks {g after : List Char} {i k : Nat}
    (hrest : s.rest = g ++ (List.replicate k ' ' ++ after)) (hcolumn : s.column = 0)
    (hg : ∀ c ∈ g, isBreak c = true) (hkeeps : KeepsBreaks g) (hk : k ≤ (level + 1) * step)
    (hafter : ∀ c ∈ after.head?, isBreak c = false ∧ (k < (level + 1) * step → isBlank c = false))
    (hi : i = (level + 1) * step ∨
      i = 0 ∧ k = (level + 1) * step ∧ ∀ c ∈ after.head?, isBlank c = false) :
    ∃ b : Breaks, b.breaks = g.reverse ∧ b.indentation = (level + 1) * step ∧
      Gives (settleBreaks (level * step : Nat) i) s b
        (s.pass (g ++ List.replicate k ' ')) := by
  have hkept : ∀ c ∈ g, isBreak c = true ∧ c ≠ '\r' ∧ readBreak c = c :=
    fun c hc => ⟨hg c hc, hkeeps c hc (hg c hc)⟩
  have hfuel : ∀ c : Cursor, c.At s → g.length < c.total + 1 := by
    intro c hc
    have hfits := hc.fits
    rw [hrest, List.length_append] at hfits
    rw [hc.total]
    omega
  obtain rfl | ⟨rfl, rfl, hblank⟩ := hi
  · refine ⟨{ breaks := g.reverse, indentation := (level + 1) * step, widest := k }, rfl, rfl, ?_⟩
    refine .get fun c hc => ?_
    refine (gives_readBreaks hrest hcolumn hkept (fun _ => hk) ?_ (hfuel c hc)).bind ?_
    · exact fun d hd =>
        ⟨(hafter d hd).1, fun h => (hafter d hd).2 (h.resolve_left (by simp [step]))⟩
    · rw [if_neg (by simp [step])]
      simpa using Gives.pure _ _
  · refine ⟨
      { breaks := g.reverse, indentation := (level + 1) * step, widest := (level + 1) * step },
      rfl, rfl, ?_⟩
    refine .get fun c hc => ?_
    refine (gives_readBreaks hrest hcolumn hkept (fun h => absurd rfl h) ?_ (hfuel c hc)).bind ?_
    · exact fun d hd => ⟨(hafter d hd).1, fun _ => hblank d hd⟩
    · have hwidest : max (max ((level + 1) * step) ((level * step : Nat) + 1 : Int).toNat) 1 =
          (level + 1) * step := by
        simp only [step]
        omega
      simp only [if_true, Nat.zero_max, List.append_nil, hwidest]
      exact .pure _ _

/-- The lines of a text keep its line breaks, and end with one. -/
theorem closedLines_ends (hkeeps : KeepsBreaks v) :
    KeepsBreaks (closedLines v) ∧ ∀ c ∈ (closedLines v).getLast?, isBreak c = true := by
  cases hv : v.getLast? with
  | none =>
    rw [List.getLast?_eq_none_iff.mp hv]
    exact ⟨fun c hc => absurd hc (by simp [closedLines]), by simp [closedLines]⟩
  | some last =>
    obtain ⟨x, rfl⟩ := List.getLast?_eq_some_iff.mp hv
    cases hlast : isBreak last with
    | true =>
      rw [closedLines_of_break hlast]
      exact ⟨hkeeps, by simpa using hlast⟩
    | false =>
      rw [closedLines_of_not_break hlast]
      refine ⟨fun c hc hbreak => ?_, by simp [isBreak]⟩
      obtain hc | hc := List.mem_append.mp hc
      · exact hkeeps c hc hbreak
      · rw [List.mem_singleton.mp hc]
        exact ⟨by decide, rfl⟩

/-- The lines of a text start as the text does. -/
theorem head?_closedLines (v : List Char) : (closedLines v).head? = v.head? := by
  cases v with
  | nil => rfl
  | cons c v =>
    simp only [closedLines, endLine, List.isEmpty_cons, Bool.false_eq_true, if_false]
    split <;> rfl

/-- **A literal block is read back** when its text does not start with a tab. Its lines are cut into
the empty ones at the start and those from the first that is not empty: the former and the
indentation are read together. -/
theorem gives_readBlock (level : Nat) (hkeeps : KeepsBreaks v) (hv : v ≠ [])
    (htab : v.head? ≠ some '\t')
    (honset : Onset columns next) (hcolumns : columns < (level + 1) * step)
    (hrest : s.rest =
      endLine (literalBlock (level + 1) v) ++ (List.replicate columns ' ' ++ next)) :
    Gives (readBlock false (level * step : Nat)) s v
      (s.pass (endLine (literalBlock (level + 1) v) ++ List.replicate columns ' ')) := by
  obtain ⟨chomping, hmark, hchomp⟩ := exists_chomping hv
  obtain ⟨hfull, hends⟩ := closedLines_ends hkeeps
  rw [endLine_literalBlock (level + 1) hv, hmark, indentationMark_eq] at hrest ⊢
  obtain ⟨g, w, hsplit, hg, hw⟩ : ∃ g w, closedLines v = g ++ w ∧
      (∀ c ∈ g, isBreak c = true) ∧ ∀ c ∈ w.head?, isBreak c = false := by
    refine ⟨_, _, List.takeWhile_append_dropWhile.symm,
      fun c hc => List.all_eq_true.mp List.all_takeWhile c hc, fun c hc => ?_⟩
    have := List.head?_dropWhile_not isBreak (closedLines v)
    rw [Option.mem_def.mp hc] at this
    simpa using this
  obtain ⟨hle, after, hafter, hhead, hstop⟩ := indentLines_leading honset hcolumns hw
  have hshown : marksIndentation v = false →
      leadingSpaces (level + 1) columns w = (level + 1) * step ∧
        ∀ c ∈ after.head?, isBlank c = false := by
    intro hmarks
    have hfirst := head?_closedLines v
    obtain ⟨c, v, rfl⟩ := List.exists_cons_of_ne_nil hv
    simp only [marksIndentation, Bool.or_eq_false_iff, List.head?_cons, decide_eq_false_iff_not,
      Option.some.injEq] at hmarks
    obtain rfl : g = [] := by
      cases g with
      | nil => rfl
      | cons d g =>
        obtain rfl : d = c := by simpa [hsplit] using hfirst
        exact absurd (hg d List.mem_cons_self) (by simpa [atBreak] using hmarks.1)
    rw [hsplit, List.nil_append] at hfirst
    have hne : w ≠ [] := by
      rintro rfl
      cases hfirst
    refine ⟨by simp [leadingSpaces, hne], fun d hd => ?_⟩
    rw [hhead hne, hfirst] at hd
    obtain rfl : c = d := by simpa using hd
    simpa [isBlank, hmarks.2] using htab
  have hrest' : s.rest = '|' :: ((if marksIndentation v then ['4'] else []) ++ (chomping.mark ++
      '\n' :: (g ++ (List.replicate (leadingSpaces (level + 1) columns w) ' ' ++ after)))) := by
    rw [hrest, hsplit, indentLines_breaks hg, ← hafter]
    simp
  rw [hsplit, indentLines_breaks hg]
  generalize marksIndentation v = given at hrest' hshown ⊢
  have hlast : ∀ c ∈ w.getLast?, isBreak c = true := by
    intro c hc
    refine hends c ?_
    rw [hsplit, List.getLast?_append, Option.mem_def.mp hc]
    rfl
  have hmarks := Spot.rest_pass_cons hrest'
  have hbreak : ((s.pass ['|']).pass ((if given then ['4'] else []) ++ chomping.mark)).rest = _ :=
    Spot.rest_pass (by rw [hmarks, List.append_assoc])
  have hbody := Spot.rest_pass_cons hbreak
  have hcolumn : (((s.pass ['|']).pass ((if given then ['4'] else []) ++ chomping.mark)).pass
      ['\n']).column = 0 := by
    rw [← Spot.pass_append]
    exact (Spot.pass_indent _ _ rfl 0).1
  obtain ⟨breaks, hbreaks, hindentation, hsettle⟩ := gives_settleBreaks hbody hcolumn hg
    (fun c hc => hfull c (by simp [hsplit, hc])) hle hstop
    (i := if (if given then 4 else 0) = 0 then 0 else
      ((level * step : Nat) : Int).toNat + if given then 4 else 0) (by
      cases given with
      | true => exact .inl (by simp [step]; omega)
      | false => exact .inr ⟨rfl, hshown rfl⟩)
  refine (gives_skip_one hrest' rfl).bind ?_
  refine (gives_readMarks given chomping rfl hmarks).bind ?_
  refine (gives_endHeader rfl (by decide) hbreak).bind (hsettle.bind ?_)
  rw [hindentation, hbreaks, List.reverse_reverse]
  refine (gives_demand 1 _).bind (.get fun c hc => ?_)
  have hgcolumn := Spot.column_pass_breaks hcolumn hg
  have hgrest := (Spot.rest_pass hbody).trans hafter.symm
  have hfuel : w.length < c.total + 1 := by
    have hfits := hc.fits
    have hlength := congrArg List.length hafter
    have : w.length ≤ (indentLines (level + 1) true w).length := length_le_indentLines true w
    rw [Spot.rest_pass (by rw [hbody, List.append_assoc])] at hfits
    simp only [Spot.index_pass, Spot.total_pass, List.length_append] at hfits hlength
    rw [hc.total]
    simp only [Spot.total_pass]
    omega
  obtain ⟨block, hholds, hread⟩ := gives_readLines (fun c hc => hfull c (by simp [hsplit, hc]))
    hlast hw honset hcolumns hgcolumn hgrest
    (⟨rfl, by simpa using hg, by simp, fun h => absurd rfl h, fun _ => rfl⟩ :
      Block.Holds { emptyLines := g } g) hfuel
  rw [← hsplit] at hholds
  have hspot : s.pass ('|' :: ((if given then ['4'] else []) ++ (chomping.mark ++
      '\n' :: (g ++ indentLines (level + 1) true w))) ++ List.replicate columns ' ') =
      ((((s.pass ['|']).pass ((if given then ['4'] else []) ++ chomping.mark)).pass ['\n']).pass
        g).pass (indentLines (level + 1) true w ++ List.replicate columns ' ') := by
    simp only [← Spot.pass_append]
    congr 1
    simp
  rw [hspot, Spot.pass_append _ g, ← hchomp block hholds]
  exact hread.bind (.pure _ _)

end Literal

end DocHarvest.Yaml
