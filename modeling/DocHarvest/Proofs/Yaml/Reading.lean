import DocHarvest.Yaml.Cursor

/-!
# Reading a Sound Text

Whoever reads a document asks for characters before looking at them, and that changes the window
of the cursor. In a text that is sound to its end, and holds no byte order mark, asking always
succeeds and nothing else depends on the window; so what a reader does is said here about the spot
where it stands, which is the cursor without its window.

A spot moves over one character after another. A reader that reads a text gives its result and
ends at the spot behind that text, whatever follows there.

## Main definitions

* `Yaml.Spot` — a place in a text; `Yaml.Spot.pass` moves over a text.
* `Yaml.Cursor.At` — a cursor at a spot, in a text that is sound.
* `Yaml.Gives` — what a reader gives at a spot, and where it ends.

## Main results

* `Yaml.Gives.bind` — readers one after another.
* `Yaml.gives_demand` — asking for characters changes nothing.
* `Yaml.gives_skip`, `Yaml.gives_skipBreak` — moving over a character.
* `Yaml.gives_takeWhile`, `Yaml.gives_skipWhile` — reading on while a test accepts.
-/

namespace DocHarvest.Yaml

/-! ### Spots -/

/-- A place in a text: the characters that follow, how many there are in all, how many came
before, and the line and column. -/
structure Spot where
  rest : List Char
  total : Nat
  index : Nat := 0
  line : Nat := 0
  column : Nat := 0
  afterBreak : Bool := false
  deriving DecidableEq, Repr

namespace Spot

/-- The spot behind the next character, which is the given one. -/
def move (s : Spot) (c : Char) : Spot :=
  if isBreak c then
    { s with
      rest := s.rest.tail
      index := s.index + 1
      line := s.line + 1
      column := 0
      afterBreak := true }
  else
    { s with
      rest := s.rest.tail
      index := s.index + 1
      column := s.column + 1
      afterBreak := s.afterBreak && isBlank c }

/-- The spot behind a text. -/
def pass (s : Spot) (text : List Char) : Spot :=
  text.foldl move s

variable {s : Spot} {c : Char} {text text' : List Char}

/-- To pass nothing is to stay. -/
@[simp]
theorem pass_nil (s : Spot) : s.pass [] = s := rfl

/-- The first character is passed first. -/
theorem pass_cons (s : Spot) (c : Char) (text : List Char) :
    s.pass (c :: text) = (s.move c).pass text := rfl

/-- Texts are passed one after another. -/
theorem pass_append (s : Spot) (text text' : List Char) :
    s.pass (text ++ text') = (s.pass text).pass text' :=
  List.foldl_append

/-- One character less is ahead after a move. -/
@[simp]
theorem rest_move (s : Spot) (c : Char) : (s.move c).rest = s.rest.tail := by
  unfold move
  split <;> rfl

/-- A move keeps the length of the text. -/
@[simp]
theorem total_move (s : Spot) (c : Char) : (s.move c).total = s.total := by
  unfold move
  split <;> rfl

/-- What is ahead after a text was passed. -/
theorem rest_pass_eq_drop (s : Spot) (text : List Char) :
    (s.pass text).rest = s.rest.drop text.length := by
  induction text generalizing s with
  | nil => rfl
  | cons c text ih => rw [pass_cons, ih, rest_move, List.length_cons, List.drop_tail]

/-- What follows behind a text. -/
theorem rest_pass {after : List Char} (h : s.rest = text ++ after) :
    (s.pass text).rest = after := by
  rw [rest_pass_eq_drop, h, List.drop_left]

/-- What is ahead after one character was passed. -/
theorem rest_pass_cons {after : List Char} (h : s.rest = c :: after) :
    (s.pass [c]).rest = after := by
  rw [rest_pass_eq_drop, h, List.length_singleton, List.drop_one, List.tail_cons]

/-- Passing a text keeps the length of the whole. -/
@[simp]
theorem total_pass (s : Spot) (text : List Char) : (s.pass text).total = s.total := by
  induction text generalizing s with
  | nil => rfl
  | cons c text ih => rw [pass_cons, ih, total_move]

/-- Passing a text moves the index by its length. -/
@[simp]
theorem index_pass (s : Spot) (text : List Char) :
    (s.pass text).index = s.index + text.length := by
  induction text generalizing s with
  | nil => rfl
  | cons c text ih =>
    have hmove : (s.move c).index = s.index + 1 := by
      unfold move
      split <;> rfl
    rw [pass_cons, ih, hmove, List.length_cons]
    omega

/-- Within a line, the column grows and the line stays. -/
theorem pass_line (h : ∀ c ∈ text, isBreak c = false) :
    (s.pass text).column = s.column + text.length ∧ (s.pass text).line = s.line ∧
      (s.pass text).afterBreak = (s.afterBreak && text.all isBlank) := by
  induction text generalizing s with
  | nil => simp
  | cons c text ih =>
    obtain ⟨hc, htext⟩ := List.forall_mem_cons.mp h
    obtain ⟨hcolumn, hline, hbreak⟩ := ih (s := s.move c) htext
    rw [pass_cons, hcolumn, hline, hbreak, move, if_neg (by simp [hc])]
    refine ⟨?_, rfl, ?_⟩
    · simp only [List.length_cons]
      omega
    · rw [List.all_cons, Bool.and_assoc]

/-- Spaces at the start of a line. -/
theorem column_pass_spaces (h : s.column = 0) (n : Nat) :
    (s.pass (List.replicate n ' ')).column = n := by
  rw [(pass_line _).1, h, List.length_replicate, Nat.zero_add]
  intro d hd
  rw [List.eq_of_mem_replicate hd]
  rfl

/-- Line breaks at the start of a line. -/
theorem column_pass_breaks (h : s.column = 0) (htext : ∀ d ∈ text, isBreak d = true) :
    (s.pass text).column = 0 := by
  induction text generalizing s with
  | nil => exact h
  | cons d text ih =>
    obtain ⟨hd, htext⟩ := List.forall_mem_cons.mp htext
    refine ih ?_ htext
    rw [move, if_pos hd]

/-- Behind a line break and some spaces. -/
theorem pass_indent (s : Spot) (text : List Char) (hc : isBreak c = true) (n : Nat) :
    (s.pass (text ++ c :: List.replicate n ' ')).column = n ∧
      (s.pass (text ++ c :: List.replicate n ' ')).afterBreak = true := by
  have hspaces : ∀ d ∈ List.replicate n ' ', isBreak d = false ∧ isBlank d = true := by
    intro d hd
    rw [List.eq_of_mem_replicate hd]
    exact ⟨rfl, rfl⟩
  have hline := pass_line (s := (s.pass text).move c) fun d hd => (hspaces d hd).1
  rw [pass_append, pass_cons, hline.1, hline.2.2,
    List.all_eq_true.mpr fun d hd => (hspaces d hd).2, move, if_pos hc]
  simp

end Spot

/-! ### Cursors at a spot -/

/-- **A cursor is at a spot**, in a text that can be read to its end and holds no byte order
mark. -/
structure Cursor.At (c : Cursor) (s : Spot) : Prop where
  rest : c.rest = s.rest
  total : c.total = s.total
  index : c.index = s.index
  line : c.line = s.line
  column : c.column = s.column
  afterBreak : c.afterBreak = s.afterBreak
  sound : c.sound = true
  marked : c.marked = false
  clear : byteOrderMark ∉ s.rest
  fits : s.index + s.rest.length ≤ s.total

namespace Cursor.At

variable {c : Cursor} {s : Spot}

/-- A cursor shows the next character of its spot. -/
theorem head? (h : c.At s) : c.head? = s.rest.head? := by
  rw [Cursor.head?, h.rest]

/-- A cursor shows the characters ahead of its spot. -/
theorem peek? (h : c.At s) (n : Nat) : c.peek? n = s.rest[n]? := by
  rw [Cursor.peek?, h.rest]

/-- A cursor is at a mark when three of its characters start a line and a gap follows. -/
theorem atMark (h : c.At s) (ch : Char) : c.atMark ch =
    (s.column = 0 && s.rest.take 3 = [ch, ch, ch] && atGap s.rest[3]?) := by
  rw [Cursor.atMark, h.peek?, h.column, h.rest]

/-- A sound text always has what is asked for. -/
theorem demand (h : c.At s) (n : Nat) : ∃ c', c.demand n = some c' ∧ c'.At s := by
  have hrefill : ∀ ready blocks, ∃ more, refill true n ready blocks = some more := by
    intro ready blocks
    induction blocks generalizing ready with
    | nil =>
      unfold refill
      split <;> simp
    | cons block blocks ih =>
      unfold refill
      split
      · simp
      · exact ih (ready + block)
  unfold Cursor.demand
  split
  · exact ⟨c, rfl, h⟩
  · obtain ⟨⟨ready, blocks⟩, hmore⟩ := hrefill c.ready c.blocks
    rw [h.sound, hmore]
    have hunmarked : decide (c.head? = some byteOrderMark) = false := by
      rw [h.head?]
      exact decide_eq_false fun hmark => h.clear (List.mem_of_mem_head? hmark)
    exact ⟨_, rfl, h.rest, h.total, h.index, h.line, h.column, h.afterBreak, rfl, hunmarked,
      h.clear, h.fits⟩

/-- Moving over a character that is no line break. -/
theorem skip (h : c.At s) {ch : Char} {after : List Char} (hrest : s.rest = ch :: after)
    (hch : isBreak ch = false) : c.skip.At (s.move ch) := by
  have hmove : s.move ch = { s with
      rest := s.rest.tail
      index := s.index + 1
      column := s.column + 1
      afterBreak := s.afterBreak && isBlank ch } := by
    rw [Spot.move, if_neg (by simp [hch])]
  rw [hmove]
  refine ⟨?_, h.total, ?_, h.line, ?_, ?_, h.sound, h.marked, ?_, ?_⟩
  · simp only [Cursor.skip, h.rest]
  · simp only [Cursor.skip, h.index]
  · simp only [Cursor.skip, h.column]
  · simp only [Cursor.skip, h.afterBreak, h.head?, hrest, List.head?_cons, atBlank,
      Option.map_some, Option.getD_some]
  · exact fun hmem => h.clear (List.mem_of_mem_tail hmem)
  · have hfits := h.fits
    simp only [hrest, List.length_cons, List.tail_cons] at hfits ⊢
    omega

/-- Moving over a line break of one character. -/
theorem skipBreak (h : c.At s) {ch : Char} {after : List Char} (hrest : s.rest = ch :: after)
    (hch : isBreak ch = true) (hreturn : ch ≠ '\r') : c.skipBreak.At (s.move ch) := by
  have hmove : s.move ch = { s with
      rest := s.rest.tail
      index := s.index + 1
      line := s.line + 1
      column := 0
      afterBreak := true } := by
    rw [Spot.move, if_pos hch]
  have hskip : c.skipBreak = { c with
      rest := after
      ready := c.ready - 1
      index := c.index + 1
      line := c.line + 1
      column := 0
      afterBreak := true } := by
    unfold Cursor.skipBreak
    rw [h.rest, hrest]
    split
    · rename_i heq
      simp only [List.cons.injEq] at heq
      exact absurd heq.1 hreturn
    · rename_i heq
      simp only [List.cons.injEq] at heq
      rw [heq.2]
    · rename_i heq
      cases heq
  rw [hmove, hskip]
  refine ⟨?_, h.total, ?_, ?_, rfl, rfl, h.sound, h.marked, ?_, ?_⟩
  · simp only [hrest, List.tail_cons]
  · simp only [h.index]
  · simp only [h.line]
  · exact fun hmem => h.clear (List.mem_of_mem_tail hmem)
  · have hfits := h.fits
    simp only [hrest, List.length_cons, List.tail_cons] at hfits ⊢
    omega

end Cursor.At

/-! ### What readers give -/

/-- **A reader gives a result at a spot and ends at another**, whatever the window is. -/
def Gives {α : Type} (reader : Reader α) (s : Spot) (a : α) (t : Spot) : Prop :=
  ∀ c : Cursor, c.At s → ∃ c', reader.run c = some (a, c') ∧ c'.At t

section Rules

variable {α β : Type} {s t u : Spot} {a : α} {b : β}

/-- A reader that does nothing gives its value and stays. -/
theorem Gives.pure (a : α) (s : Spot) : Gives (Pure.pure a) s a s :=
  fun c hc => ⟨c, rfl, hc⟩

/-- **Readers one after another.** -/
theorem Gives.bind {reader : Reader α} {next : α → Reader β} (h : Gives reader s a t)
    (h' : Gives (next a) t b u) : Gives (reader >>= next) s b u := by
  intro c hc
  obtain ⟨c', hrun, hc'⟩ := h c hc
  obtain ⟨c'', hrun', hc''⟩ := h' c' hc'
  refine ⟨c'', ?_, hc''⟩
  rw [StateT.run_bind, hrun]
  exact hrun'

/-- A reader that looks at the cursor. -/
theorem Gives.get {next : Cursor → Reader β} (h : ∀ c : Cursor, c.At s → Gives (next c) s b u) :
    Gives (MonadState.get >>= next) s b u := by
  intro c hc
  exact h c hc c hc

/-- **Asking for characters changes nothing.** -/
theorem gives_demand (n : Nat) (s : Spot) : Gives (Reader.demand n) s () s := by
  intro c hc
  obtain ⟨c', hdemand, hc'⟩ := hc.demand n
  refine ⟨c', ?_, hc'⟩
  simp [Reader.demand, StateT.run_bind, hdemand]

/-- The next character is looked at and not passed. -/
theorem gives_head? (s : Spot) : Gives Reader.head? s s.rest.head? s := by
  intro c hc
  exact ⟨c, by rw [← hc.head?]; rfl, hc⟩

/-- A character ahead is looked at and not passed. -/
theorem gives_peek? (n : Nat) (s : Spot) : Gives (Reader.peek? n) s s.rest[n]? s := by
  intro c hc
  exact ⟨c, by rw [← hc.peek?]; rfl, hc⟩

/-- Skipping once more is to skip first. -/
theorem repeat_skip_succ (n : Nat) (c : Cursor) :
    (n + 1).repeat Cursor.skip c = n.repeat Cursor.skip c.skip := by
  induction n with
  | zero => rfl
  | succ n ih => exact congrArg Cursor.skip ih

/-- Moving over some characters of a line. -/
theorem gives_skip {text after : List Char} (hrest : s.rest = text ++ after)
    (htext : ∀ ch ∈ text, isBreak ch = false) :
    Gives (Reader.skip text.length) s () (s.pass text) := by
  intro c hc
  refine ⟨text.length.repeat Cursor.skip c, rfl, ?_⟩
  induction text generalizing s c with
  | nil => exact hc
  | cons ch text ih =>
    obtain ⟨hch, htext⟩ := List.forall_mem_cons.mp htext
    rw [List.length_cons, repeat_skip_succ]
    exact ih (Spot.rest_pass_cons hrest) htext c.skip (hc.skip hrest hch)

/-- Moving over one character of a line. -/
theorem gives_skip_one {ch : Char} {after : List Char} (hrest : s.rest = ch :: after)
    (hch : isBreak ch = false) : Gives (Reader.skip 1) s () (s.pass [ch]) :=
  fun c hc => ⟨c.skip, rfl, hc.skip hrest hch⟩

/-- A line break of one character is skipped. -/
theorem gives_skipBreak {ch : Char} {after : List Char} (hrest : s.rest = ch :: after)
    (hch : isBreak ch = true) (hreturn : ch ≠ '\r') : Gives Reader.skipBreak s () (s.pass [ch]) :=
  (gives_demand 2 s).bind fun c hc => ⟨c.skipBreak, rfl, hc.skipBreak hrest hch hreturn⟩

end Rules

/-! ### Reading on while a test accepts -/

section Tests

variable {s : Spot} {text after : List Char} {p : Char → Bool}

/-- Characters of a class are taken up to the first that is not in it. -/
theorem gives_takeWhileFrom {fuel : Nat} {chars : List Char} (hrest : s.rest = text ++ after)
    (htext : ∀ ch ∈ text, p ch = true ∧ isBreak ch = false)
    (hafter : ∀ ch ∈ after.head?, p ch = false) (hfuel : text.length ≤ fuel) :
    Gives (Reader.takeWhileFrom p fuel chars) s (chars.reverse ++ text) (s.pass text) := by
  induction text generalizing s fuel chars with
  | nil =>
    rw [List.append_nil, Spot.pass_nil]
    cases fuel with
    | zero => exact .pure _ _
    | succ fuel =>
      refine (gives_head? s).bind ?_
      rw [hrest, List.nil_append]
      cases hhead : after.head? with
      | none => exact .pure _ _
      | some ch =>
        simp only [hafter ch hhead, Bool.false_eq_true, if_false]
        exact .pure _ _
  | cons ch text ih =>
    obtain ⟨⟨hp, hbreak⟩, htext⟩ := List.forall_mem_cons.mp htext
    cases fuel with
    | zero => simp at hfuel
    | succ fuel =>
      refine (gives_head? s).bind ?_
      simp only [hrest, List.cons_append, List.head?_cons, hp, if_true]
      refine (gives_skip_one hrest hbreak).bind ((gives_demand 1 _).bind ?_)
      have htail : Gives (Reader.takeWhileFrom p fuel (ch :: chars)) (s.pass [ch])
          ((ch :: chars).reverse ++ text) ((s.pass [ch]).pass text) :=
        ih (Spot.rest_pass_cons hrest) htext (by simpa using hfuel)
      rw [List.reverse_cons, List.append_assoc] at htail
      exact htail

/-- **Reading on while a test accepts** reads what it accepts, up to something else or the end. -/
theorem gives_takeWhile (hrest : s.rest = text ++ after)
    (htext : ∀ ch ∈ text, p ch = true ∧ isBreak ch = false)
    (hafter : ∀ ch ∈ after.head?, p ch = false) :
    Gives (Reader.takeWhile p) s text (s.pass text) := by
  refine (gives_demand 1 s).bind (.get fun c hc => gives_takeWhileFrom hrest htext hafter ?_)
  have hfits := hc.fits
  rw [hrest, List.length_append] at hfits
  rw [hc.total]
  omega

/-- Characters of a class are skipped up to the first that is not in it. -/
theorem gives_skipWhile (hrest : s.rest = text ++ after)
    (htext : ∀ ch ∈ text, p ch = true ∧ isBreak ch = false)
    (hafter : ∀ ch ∈ after.head?, p ch = false) :
    Gives (Reader.skipWhile p) s () (s.pass text) :=
  (gives_takeWhile hrest htext hafter).bind (.pure () _)

end Tests

end DocHarvest.Yaml
