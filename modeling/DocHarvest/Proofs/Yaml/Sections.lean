import DocHarvest.Proofs.Yaml.Values

/-!
# The Tokens of Written Settings

A document of sections, each with lines of a name and a value, is cut into the tokens of a mapping
of mappings. Tokens leave the queue behind those that are fetched, so a run is described by what it
adds: the tokens that have left and those in the queue are, after it, those before it and the new
ones.

## Main definitions

* `Yaml.RunsIn` — what some steps of a run do at a stage.
* `Yaml.Advances` — a run adds tokens to those that are due.
* `Yaml.Ready` — a stage with nothing pending but its queue, and the spot of the next token.
* `Yaml.Entry`, `Yaml.Section` — names with values, and what such lines stand under.
* `Yaml.AtEntry`, `Yaml.AtLine` — a stage at the next entry of a section, and at the next section.

## Main results

* `Yaml.advances_name`, `Yaml.advances_value` — the two halves of an entry.
* `Yaml.advances_entries`, `Yaml.advances_sections` — entries and sections, one after another.
* `Yaml.tokens_of_sections` — the tokens of a whole document.
-/

namespace DocHarvest.Yaml

variable {s t u : Spot} {stage stage' stage'' : Stage} {out out' due due' due'' : List Token}
  {new new' : List Token}

/-! ### Runs -/

/-- **Some steps of a run** let tokens out of the queue and lead to another stage. -/
def RunsIn (n : Nat) (stage : Stage) (s : Spot) (out : List Token) (stage' : Stage) (t : Spot) :
    Prop :=
  ∀ c : Cursor, c.At s → ∃ c' : Cursor, c'.At t ∧
    ∀ fuel, (stage.scan c).run (n + fuel) = out ++ (stage'.scan c').run fuel

/-- A scan that takes no steps stays where it is. -/
theorem RunsIn.refl (stage : Stage) (s : Spot) : RunsIn 0 stage s [] stage s :=
  fun c hc => ⟨c, hc, fun fuel => by rw [Nat.zero_add, List.nil_append]⟩

/-- The steps of scans add up. -/
theorem RunsIn.trans {n m : Nat} (h : RunsIn n stage s out stage' t)
    (h' : RunsIn m stage' t out' stage'' u) : RunsIn (n + m) stage s (out ++ out') stage'' u := by
  intro c hc
  obtain ⟨c', hc', hrun⟩ := h c hc
  obtain ⟨c'', hc'', hrun'⟩ := h' c' hc'
  refine ⟨c'', hc'', fun fuel => ?_⟩
  rw [Nat.add_assoc, hrun, hrun', List.append_assoc]

/-- With fewer than three tokens in the queue, more are fetched. -/
theorem RunsIn.of_fetches (h : Fetches stage s stage' t) (hqueue : stage.queue.length < 3) :
    RunsIn 1 stage s [] stage' t := by
  intro c hc
  obtain ⟨c', hfetch, hc'⟩ := h c hc
  refine ⟨c', hc', fun fuel => ?_⟩
  have hsettle : (stage.scan c).settle = some (false, stage.scan c) := by
    simp [Scan.settle, Stage.scan, hqueue]
  rw [Nat.add_comm, Scan.run, hsettle, List.nil_append]
  simp only [hfetch]

/-- Tokens leave the queue as long as two more are behind them, if no key is possible at them. -/
theorem RunsIn.of_queue (queue queue' : List Token) (hqueue : stage.queue = queue ++ queue')
    (hqueue' : 2 ≤ queue'.length) (hend : .streamEnd ∉ queue)
    (hnoted : ∀ p ∈ stage.noted, stage.left + queue.length ≤ p.1) :
    RunsIn queue.length stage s queue
      { stage with queue := queue', left := stage.left + queue.length } s := by
  intro c hc
  refine ⟨c, hc, fun fuel => ?_⟩
  induction queue generalizing stage with
  | nil =>
    rw [List.nil_append] at hqueue
    rw [List.length_nil, Nat.zero_add, List.nil_append, ← hqueue]
    rfl
  | cons token queue ih =>
    have hlookup : stage.noted.lookup stage.left = none := by
      rw [List.lookup_eq_none_iff]
      intro p hp
      have := hnoted p hp
      rw [List.length_cons] at this
      rw [bne_iff_ne]
      omega
    have hsettle : (stage.scan c).settle = some (true, stage.scan c) := by
      have hlong : ¬(stage.scan c).queue.length < 3 := by
        show ¬stage.queue.length < 3
        rw [hqueue, List.length_append, List.length_cons]
        omega
      rw [Scan.settle, if_neg hlong, show (stage.scan c).noted = stage.noted from rfl,
        show (stage.scan c).left = stage.left from rfl, hlookup]
    have hleave : (stage.scan c).run (queue.length + 1 + fuel) = token ::
        (Stage.scan { stage with queue := queue ++ queue', left := stage.left + 1 } c).run
          (queue.length + fuel) := by
      rw [show queue.length + 1 + fuel = queue.length + fuel + 1 by omega, Scan.run, hsettle]
      simp only [show (stage.scan c).queue = token :: (queue ++ queue') from hqueue]
      cases token with
      | streamEnd => exact absurd List.mem_cons_self hend
      | _ => rfl
    rw [List.length_cons, hleave, List.cons_append, ih rfl fun h => hend (List.mem_cons_of_mem _ h)]
    · simp only [Nat.add_assoc, Nat.add_comm 1]
    · intro p hp
      have := hnoted p hp
      rw [List.length_cons] at this
      show stage.left + 1 + queue.length ≤ p.1
      omega

/-- **A run adds tokens** to those that are due: to those in the queue, and those that are certain
to follow them. It takes no more steps than there are tokens to let out and twice the new ones. -/
def Advances (stage : Stage) (s : Spot) (due new : List Token) (stage' : Stage) (t : Spot)
    (due' : List Token) : Prop :=
  ∃ n out, RunsIn n stage s out stage' t ∧ out ++ due' = due ++ new ∧
    n + due'.length ≤ due.length + 2 * new.length

/-- A scan that has advanced can advance further. -/
theorem Advances.trans (h : Advances stage s due new stage' t due')
    (h' : Advances stage' t due' new' stage'' u due'') :
    Advances stage s due (new ++ new') stage'' u due'' := by
  obtain ⟨n, out, hrun, hout, hsteps⟩ := h
  obtain ⟨m, out', hrun', hout', hsteps'⟩ := h'
  refine ⟨n + m, out ++ out', hrun.trans hrun', ?_, ?_⟩
  · rw [List.append_assoc, hout', ← List.append_assoc, hout, List.append_assoc]
  · rw [List.length_append]
    omega

/-- What becomes certain behind a run is due. -/
theorem Advances.append (h : Advances stage s due new stage' t due') (more : List Token) :
    Advances stage s due (new ++ more) stage' t (due' ++ more) := by
  obtain ⟨n, out, hrun, hout, hsteps⟩ := h
  refine ⟨n, out, hrun, ?_, ?_⟩
  · rw [← List.append_assoc, hout, List.append_assoc]
  · simp only [List.length_append]
    omega

/-! ### Entries -/

/-- A stage at which nothing is pending but its queue, and from which the next token is reached at
a spot. -/
structure Ready (stage : Stage) (s : Spot) (indent : Int) (outer : List Int) (queue : List Token)
    (u : Spot) : Prop where
  indent : stage.indent = indent
  outer : stage.outer = outer
  queue : stage.queue = queue
  key : stage.key.possible = false
  noted : stage.noted = []
  skip : Gives (skipToToken false (s.total + 1) stage.keyAllowed) s true u

/-- A stage behind a name and its colon, at which a value is expected. -/
structure Expects (stage : Stage) (indent : Int) (outer : List Int) (name : List Char) : Prop where
  indent : stage.indent = indent
  outer : stage.outer = outer
  queue : stage.queue = [.scalar name true, .value]
  key : stage.key.possible = false
  noted : stage.noted = []
  keyAllowed : stage.keyAllowed = false

/-- A stage behind a name at a spot that may be a key, with one token before it in the queue. -/
structure Named (stage : Stage) (u : Spot) (indent : Int) (outer : List Int) (before : Token)
    (name : List Char) : Prop where
  indent : stage.indent = indent
  outer : stage.outer = outer
  queue : stage.queue = [before, .scalar name true]
  possible : stage.key.possible = true
  number : stage.key.number = stage.left + 1
  index : stage.key.index = u.index
  line : stage.key.line = u.line
  column : stage.key.column = u.column
  noted : stage.noted = [(stage.key.number, 0)]

/-- A name lets the tokens before it out of the queue, all but one. -/
theorem runsIn_name {name after : List Char} {indent indent' : Int} {outer outer' : List Int}
    {queue front : List Token} {before : Token} (h : Ready stage s indent outer queue u)
    (hname : isName name = true) (hrest : u.rest = name ++ ':' :: after)
    (hafter : atGap after.head? = true) (hshort : queue.length < 3)
    (hclose : Scan.closeBlocks u.column outer indent queue = (outer', indent', front ++ [before]))
    (hend : .streamEnd ∉ front) :
    ∃ stage', RunsIn (1 + front.length) stage s front stage' (u.pass name) ∧
      Named stage' u indent' outer' before name := by
  obtain ⟨rfl, rfl, rfl, hkey, hnoted, hskip⟩ := h
  have hnamed := RunsIn.of_fetches (fetches_name hname hafter hskip hrest hclose hkey) hshort
  have hleave := hnamed.trans (RunsIn.of_queue front [before, .scalar name true]
    (List.append_assoc front [before] _) (by simp) hend (by simp [Stage.emit, Stage.saved, hnoted]))
  refine ⟨_, hleave, rfl, rfl, rfl, rfl, ?_, rfl, rfl, rfl, ?_⟩
  · simp [Stage.emit, Stage.saved, Nat.add_assoc]
  · simp [Stage.emit, Stage.saved, hnoted]

/-- What opens a mapping in a column, when the innermost collection is further to the left. -/
def opening (indent : Int) (column : Nat) : List Token :=
  if indent < column then [.mappingStart] else []

/-- The colon makes the name a key, and lets out what is before it. -/
theorem runsIn_colon {name after : List Char} {indent : Int} {outer : List Int} {before : Token}
    (h : Named stage u indent outer before name) (hname : isName name = true)
    (hlength : name.length ≤ maxKey) (hrest : u.rest = name ++ ':' :: after)
    (hafter : atGap after.head? = true)
    (hcomment : Gives skipLineComment (u.pass (name ++ [':'])) () (u.pass (name ++ [':'])))
    (hend : before ≠ .streamEnd) (hindent : indent ≤ u.column) (hdepth : outer.length < maxDepth) :
    ∃ stage', RunsIn (3 + (opening indent u.column).length) stage (u.pass name)
        (before :: opening indent u.column ++ [.key]) stage' (u.pass (name ++ [':'])) ∧
      Expects stage' u.column (if indent < u.column then indent :: outer else outer) name := by
  obtain ⟨rfl, rfl, hqueue, hpossible, hnumber, hindex, hline, hcolumn, hnoted⟩ := h
  have hpositive : 0 < name.length := by
    cases name with
    | nil => cases hname
    | cons c name => exact Nat.succ_pos _
  obtain ⟨hcolumn', hline', -⟩ := Spot.pass_line (s := u) fun c hc => (gap_of_isName hname hc).2
  rw [Spot.pass_append] at hcomment ⊢
  have hcolon := RunsIn.of_fetches (fetches_colon (Spot.rest_pass hrest) hafter hcomment (by omega)
    (by omega) (by simp [hqueue]) hpossible (by simp [hqueue]; omega) (hline.trans hline'.symm)
    (by rw [Spot.index_pass]; omega) hnoted hdepth) (by simp [hqueue])
  have hmarked : (stage.marked.emit .value false).queue =
      (before :: opening stage.indent u.column ++ [.key]) ++ [.scalar name true, .value] := by
    simp [Stage.emit, Stage.marked, hqueue, opening, hcolumn]
  have hend' : .streamEnd ∉ before :: opening stage.indent u.column ++ [.key] := by
    unfold opening
    split <;> simp [hend.symm]
  have hleave := hcolon.trans
    (RunsIn.of_queue _ _ hmarked (by simp) hend' (by simp [Stage.emit, Stage.marked]))
  have hsteps : 3 + (opening stage.indent u.column).length =
      1 + (before :: opening stage.indent u.column ++ [Token.key]).length := by
    rw [List.length_append, List.length_cons, List.length_singleton]
    omega
  rw [hsteps]
  refine ⟨_, hleave, ?_, ?_, rfl, rfl, rfl, rfl⟩
  · simp only [Stage.emit, Stage.marked, hcolumn]
    omega
  · simp only [Stage.emit, Stage.marked, hcolumn]

/-- A stage at a name in a column. What is due at it is its queue, the ends of the collections that
the column closes, and the opening of a mapping if the column is a new one. -/
inductive AtName (stage : Stage) (s u : Spot) : List Token → List Int → Prop
  | intro {indent indent' : Int} {outer outer' : List Int} {queue ends : List Token}
      (ready : Ready stage s indent outer queue u)
      (filled : queue ≠ []) (short : queue.length < 3)
      (closes : Scan.closeBlocks u.column outer indent queue = (outer', indent', queue ++ ends))
      (goesOn : .streamEnd ∉ queue ++ ends) (within : indent' ≤ u.column)
      (shallow : outer'.length < maxDepth) :
      AtName stage s u (queue ++ ends ++ opening indent' u.column)
        (if indent' < u.column then indent' :: outer' else outer')

/-- A name that can be a key. -/
structure IsKeyName (name : List Char) : Prop where
  isName : isName name = true
  short : name.length ≤ maxKey

/-- **A name and its colon** become a key, behind what is due. -/
theorem advances_name {name after : List Char} {outer : List Int} (h : AtName stage s u due outer)
    (hname : IsKeyName name) (hrest : u.rest = name ++ ':' :: after)
    (hafter : atGap after.head? = true)
    (hcomment : Gives skipLineComment (u.pass (name ++ [':'])) () (u.pass (name ++ [':']))) :
    ∃ stage', Advances stage s due [.key, .scalar name true, .value] stage'
        (u.pass (name ++ [':'])) [.scalar name true, .value] ∧
      Expects stage' u.column outer name := by
  obtain ⟨hname, hlength⟩ := hname
  cases h with
  | @intro indent indent' outer outer' queue ends hready hfilled hshort hclose hend hindent hdepth =>
    obtain ⟨front, before, hfront⟩ : ∃ front before, queue ++ ends = front ++ [before] :=
      ⟨_, _, (List.dropLast_concat_getLast (by simp [hfilled])).symm⟩
    rw [hfront] at hclose hend
    rw [List.mem_append, not_or, List.mem_singleton] at hend
    obtain ⟨named, hrun, hnamed⟩ := runsIn_name hready hname hrest hafter hshort hclose hend.1
    obtain ⟨stage', hrun', hexpects⟩ := runsIn_colon hnamed hname hlength hrest hafter hcomment
      (Ne.symm hend.2) hindent hdepth
    refine ⟨stage', ⟨_, _, hrun.trans hrun', ?_, ?_⟩, hexpects⟩
    · rw [hfront]
      simp
    · rw [hfront]
      simp only [List.length_append, List.length_cons, List.length_nil]
      omega

/-- **A value** follows, and the next token is reached behind it. -/
theorem advances_value {name v next : List Char} {columns : Nat}
    (h : Expects stage step [0, -1] name) (hv : ¬Refused v) (honset : Onset columns next)
    (hcolumns : columns ≤ step) (hcolumn : step ≤ s.column)
    (hrest : s.rest = ' ' :: (endLine (written 2 v) ++ (List.replicate columns ' ' ++ next))) :
    ∃ stage' t, Advances stage s [.scalar name true, .value]
        [.scalar v (style v = .plain)] stage' t
        [.value, .scalar v (style v = .plain)] ∧
      Ready stage' t step [0, -1] [.value, .scalar v (style v = .plain)]
        (s.pass (' ' :: (endLine (written 2 v) ++ List.replicate columns ' '))) := by
  obtain ⟨hindent, houter, hqueue, hkey, hnoted, hallowed⟩ := h
  obtain ⟨t, keyAllowed, hfetch, hskip⟩ := readsValue_written hv honset hcolumns hindent
    (by rw [hindent]; omega) hallowed hkey hrest
  have hrun := RunsIn.of_fetches hfetch (by simp [hqueue])
  have hleave := hrun.trans (RunsIn.of_queue [.scalar name true]
    [.value, .scalar v (style v = .plain)] (by simp [Stage.emit, hqueue]) (by simp)
    (by simp) (by simp [Stage.emit, hnoted]))
  exact ⟨_, t, ⟨_, _, hleave, rfl, by simp⟩, hindent, houter, rfl, hkey, hnoted, hskip⟩

/-- A name with its value. -/
structure Entry where
  name : List Char
  value : List Char

/-- The line or lines of an entry, behind their indentation. -/
def Entry.line (entry : Entry) : List Char :=
  entry.name ++ ':' :: ' ' :: endLine (written 2 entry.value)

/-- The tokens of an entry. -/
def Entry.tokens (entry : Entry) : List Token :=
  [.key, .scalar entry.name true, .value,
    .scalar entry.value (style entry.value = .plain)]

/-- The lines of entries. -/
def lines (entries : List Entry) : List Char :=
  entries.flatMap fun entry => indentation 1 ++ entry.line

/-- Whether an entry can be read back: its name can be a key, and its value is not refused. -/
structure Entry.Fits (entry : Entry) : Prop where
  name : IsKeyName entry.name
  value : ¬Refused entry.value

/-- The lines of the first entry come first, indented. -/
theorem lines_cons (entry : Entry) (entries : List Entry) :
    lines (entry :: entries) = List.replicate step ' ' ++ (entry.line ++ lines entries) := by
  rw [lines, List.flatMap_cons, List.append_assoc]
  rfl

/-- A name starts a token. -/
theorem IsKeyName.onset {name : List Char} (h : IsKeyName name) (columns : Nat)
    (after : List Char) : Onset columns (name ++ after) := by
  have hname := h.isName
  cases name with
  | nil => cases hname
  | cons c name =>
    have hc : c ∈ c :: name := List.mem_cons_self
    exact .inr ⟨c, _, rfl, (gap_of_isName hname hc).1, (gap_of_isName hname hc).2,
      ne_of_isName hname hc rfl⟩

/-- A name and its colon stand on one line. -/
theorem IsKeyName.column_le {name : List Char} (h : IsKeyName name) (u : Spot) :
    u.column ≤ (u.pass (name ++ [':'])).column := by
  have hline : ∀ d ∈ name ++ [':'], isBreak d = false := by
    intro d hd
    obtain hd | hd := List.mem_append.mp hd
    · exact (gap_of_isName h.isName hd).2
    · rw [List.mem_singleton.mp hd]
      rfl
  rw [(Spot.pass_line hline).1]
  omega

/-- An entry starts a line. -/
theorem Entry.onset {entry : Entry} (h : IsKeyName entry.name) (columns : Nat)
    (after : List Char) : Onset columns (entry.line ++ after) := by
  rw [Entry.line, List.append_assoc]
  exact h.onset columns _

/-- A line behind an entry starts in the column of its indentation. -/
theorem Entry.column_pass_line (entry : Entry) (u : Spot) (n : Nat) :
    (u.pass (entry.line ++ List.replicate n ' ')).column = n := by
  obtain ⟨x, b, hends, hb⟩ := exists_endLine_eq (written 2 entry.value)
  have hline : entry.line ++ List.replicate n ' ' =
      (entry.name ++ ':' :: ' ' :: x) ++ b :: List.replicate n ' ' := by
    simp [Entry.line, hends]
  rw [hline]
  exact (Spot.pass_indent u _ hb n).1

/-- A stage at the name of an entry: in the column of its section's entries or, in front of the
first of them, inside the column of the section's name. Then the section's mapping has to be
opened. -/
structure AtEntry (stage : Stage) (s : Spot) (due : List Token) (u : Spot) : Prop where
  column : u.column = step
  ready : (∃ text plain, Ready stage s step [0, -1] [.value, .scalar text plain] u ∧
      due = [.value, .scalar text plain]) ∨
    ∃ name, Ready stage s 0 [-1] [.scalar name true, .value] u ∧
      due = [.scalar name true, .value, .mappingStart]

/-- A scan before an entry is before a name within a section. -/
theorem AtEntry.atName (h : AtEntry stage s due u) : AtName stage s u due [0, -1] := by
  obtain ⟨hcolumn, ⟨text, plain, hready, rfl⟩ | ⟨name, hready, rfl⟩⟩ := h
  · have hclose : Scan.closeBlocks u.column [0, -1] step [.value, .scalar text plain] =
        ([0, -1], (step : Int), [.value, .scalar text plain] ++ []) := by
      rw [hcolumn]
      rfl
    have h := AtName.intro hready (by simp) (by simp) hclose (by simp) (by omega) (by decide)
    rw [hcolumn] at h
    exact h
  · have hclose : Scan.closeBlocks u.column [-1] 0 [.scalar name true, .value] =
        ([-1], (0 : Int), [.scalar name true, .value] ++ []) := by
      rw [hcolumn]
      rfl
    have h := AtName.intro hready (by simp) (by simp) hclose (by simp) (by omega) (by decide)
    rw [hcolumn] at h
    exact h

/-- The name of an entry. -/
theorem advances_entry_name {entry : Entry} {after : List Char} (hname : IsKeyName entry.name)
    (h : AtEntry stage s due u) (hrest : u.rest = entry.line ++ after) :
    ∃ stage', Advances stage s due [.key, .scalar entry.name true, .value] stage'
        (u.pass (entry.name ++ [':'])) [.scalar entry.name true, .value] ∧
      Expects stage' step [0, -1] entry.name := by
  obtain ⟨c, rest, hwritten, hblank, -, hhash⟩ := exists_written_eq entry.value
  have hrest' : u.rest = (entry.name ++ [':']) ++
      ' ' :: (endLine (written 2 entry.value) ++ after) := by
    rw [hrest, Entry.line]
    simp
  have hhead : (endLine (written 2 entry.value) ++ after).head? = some c := by
    rw [hwritten, endLine]
    split <;> rfl
  have hcomment := gives_skipLineComment
    (.inr ⟨1, _, Spot.rest_pass hrest', by simp [hhead, hblank, hhash]⟩)
  obtain ⟨stage', hadvances, hexpects⟩ :=
    advances_name h.atName hname (hrest'.trans (List.append_assoc _ _ _)) rfl hcomment
  rw [h.column] at hexpects
  exact ⟨stage', hadvances, hexpects⟩

/-- **An entry of a section.** -/
theorem advances_entry {entry : Entry} {columns : Nat} {next : List Char} (hfits : entry.Fits)
    (h : AtEntry stage s due u) (honset : Onset columns next) (hcolumns : columns ≤ step)
    (hrest : u.rest = entry.line ++ (List.replicate columns ' ' ++ next)) :
    ∃ stage' t, Advances stage s due entry.tokens stage' t
        [.value, .scalar entry.value (style entry.value = .plain)] ∧
      Ready stage' t step [0, -1]
        [.value, .scalar entry.value (style entry.value = .plain)]
        (u.pass (entry.line ++ List.replicate columns ' ')) := by
  obtain ⟨hname, hvalue⟩ := hfits
  obtain ⟨named, hadvances, hexpects⟩ := advances_entry_name hname h hrest
  have hrest' : u.rest = (entry.name ++ [':']) ++
      ' ' :: (endLine (written 2 entry.value) ++ (List.replicate columns ' ' ++ next)) := by
    rw [hrest, Entry.line]
    simp
  obtain ⟨stage', t, hadvances', hready⟩ := advances_value hexpects hvalue honset hcolumns
    (h.column ▸ hname.column_le u) (Spot.rest_pass hrest')
  refine ⟨stage', t, hadvances.trans hadvances', ?_⟩
  rw [← Spot.pass_append] at hready
  simpa [Entry.line] using hready

/-- **The entries of a section**, one after another. -/
theorem advances_entries {entry : Entry} {entries : List Entry} {columns : Nat} {next : List Char}
    (hfits : ∀ e ∈ entry :: entries, e.Fits) (h : AtEntry stage s due u)
    (honset : Onset columns next) (hcolumns : columns ≤ step)
    (hrest : u.rest = entry.line ++ (lines entries ++ (List.replicate columns ' ' ++ next))) :
    ∃ stage' t text plain,
      Advances stage s due ((entry :: entries).flatMap Entry.tokens) stage' t
          [.value, .scalar text plain] ∧
        Ready stage' t step [0, -1] [.value, .scalar text plain]
          (u.pass (entry.line ++ (lines entries ++ List.replicate columns ' '))) ∧
        (u.pass (entry.line ++ (lines entries ++ List.replicate columns ' '))).column =
          columns := by
  induction entries generalizing entry stage s u due with
  | nil =>
    obtain ⟨stage', t, hadvances, hready⟩ := advances_entry (hfits entry (by simp)) h honset
      hcolumns hrest
    exact ⟨stage', t, _, _, by simpa using hadvances, hready, entry.column_pass_line u columns⟩
  | cons entry' entries ih =>
    obtain ⟨hfit, hfits⟩ := List.forall_mem_cons.mp hfits
    have hlines : ∀ after, entry.line ++ (lines (entry' :: entries) ++ after) =
        (entry.line ++ List.replicate step ' ') ++ (entry'.line ++ (lines entries ++ after)) := by
      intro after
      rw [lines_cons]
      simp only [List.append_assoc]
    rw [hlines] at hrest
    obtain ⟨stage', t, hadvances, hready⟩ := advances_entry hfit h
      (Entry.onset (hfits entry' List.mem_cons_self).name step _) (Nat.le_refl _)
      (hrest.trans (List.append_assoc _ _ _))
    obtain ⟨stage'', t', text, plain, hadvances', hready', hcolumn⟩ := ih hfits
      ⟨entry.column_pass_line u step, .inl ⟨_, _, hready, rfl⟩⟩ (Spot.rest_pass hrest)
    rw [← Spot.pass_append] at hready' hcolumn
    rw [hlines]
    exact ⟨stage'', t', text, plain, hadvances.trans hadvances', hready', hcolumn⟩

/-! ### Sections -/

/-- A section: its name, its first entry and the others. -/
structure Section where
  name : List Char
  first : Entry
  others : List Entry

/-- The entries of a section. -/
def Section.entries (part : Section) : List Entry :=
  part.first :: part.others

/-- The text of a section. -/
def Section.text (part : Section) : List Char :=
  part.name ++ ':' :: '\n' :: lines part.entries

/-- The tokens that open a section. -/
def openSection (name : List Char) : List Token :=
  [.key, .scalar name true, .value, .mappingStart]

/-- The tokens of a section. -/
def Section.tokens (part : Section) : List Token :=
  openSection part.name ++ (part.entries.flatMap Entry.tokens ++ [.blockEnd])

/-- Whether a section can be read back. -/
structure Section.Fits (part : Section) : Prop where
  name : IsKeyName part.name
  entries : ∀ entry ∈ part.entries, entry.Fits

/-- A stage at the start of a line without indentation: behind a section, whose mapping has to be
closed, or at the start of the text, where the outer mapping has to be opened. -/
structure AtLine (stage : Stage) (s : Spot) (due : List Token) (u : Spot) : Prop where
  column : u.column = 0
  ready : (∃ text plain, Ready stage s step [0, -1] [.value, .scalar text plain] u ∧
      due = [.value, .scalar text plain, .blockEnd]) ∨
    Ready stage s (-1) [] [.streamStart] u ∧ due = [.streamStart, .mappingStart]

/-- A scan before a section is before a name outside of all sections. -/
theorem AtLine.atName (h : AtLine stage s due u) : AtName stage s u due [-1] := by
  obtain ⟨hcolumn, ⟨text, plain, hready, rfl⟩ | ⟨hready, rfl⟩⟩ := h
  · have hclose : Scan.closeBlocks u.column [0, -1] step [.value, .scalar text plain] =
        ([-1], (0 : Int), [.value, .scalar text plain] ++ [.blockEnd]) := by
      rw [hcolumn]
      rfl
    have h := AtName.intro hready (by simp) (by simp) hclose (by simp) (by omega) (by decide)
    rw [hcolumn] at h
    exact h
  · have hclose : Scan.closeBlocks u.column [] (-1) [.streamStart] =
        ([], (-1 : Int), [.streamStart] ++ []) := by
      rw [hcolumn]
      rfl
    have h := AtName.intro hready (by simp) (by simp) hclose (by simp) (by omega) (by decide)
    rw [hcolumn] at h
    exact h

/-- The name of a section. -/
theorem advances_section_name {name after : List Char} (hname : IsKeyName name)
    (h : AtLine stage s due u) (hrest : u.rest = name ++ ':' :: '\n' :: after) :
    ∃ stage', Advances stage s due [.key, .scalar name true, .value] stage'
        (u.pass (name ++ [':'])) [.scalar name true, .value] ∧
      Expects stage' 0 [-1] name := by
  have hcolon : (u.pass (name ++ [':'])).rest = '\n' :: after :=
    Spot.rest_pass (hrest.trans (List.append_assoc name [':'] _).symm)
  have hcomment := gives_skipLineComment (.inr ⟨0, _, hcolon, by simp [isBlank]⟩)
  obtain ⟨stage', hadvances, hexpects⟩ := advances_name h.atName hname hrest rfl hcomment
  rw [h.column] at hexpects
  exact ⟨stage', hadvances, hexpects⟩

/-- The name of a section, and the way to its first entry. -/
theorem advances_heading {name after : List Char} (hname : IsKeyName name)
    (h : AtLine stage s due u) (honset : Onset step after)
    (hrest : u.rest = (name ++ ':' :: '\n' :: List.replicate step ' ') ++ after) :
    ∃ stage' t due', Advances stage s due (openSection name) stage' t due' ∧
      AtEntry stage' t due' (u.pass (name ++ ':' :: '\n' :: List.replicate step ' ')) := by
  have hbreak : ∀ after, name ++ ':' :: after = (name ++ [':']) ++ after := by simp
  obtain ⟨stage', hadvances, hexpects⟩ := advances_section_name hname h
    (hrest.trans (List.append_assoc _ _ _))
  rw [hbreak, List.append_assoc] at hrest
  have hskip : Gives (skipToToken false ((u.pass (name ++ [':'])).total + 1) stage'.keyAllowed)
      (u.pass (name ++ [':'])) true
      ((u.pass (name ++ [':'])).pass ('\n' :: List.replicate step ' ')) :=
    gives_skipToToken_line (Spot.rest_pass hrest) rfl (by decide) honset.head
  rw [← Spot.pass_append, ← hbreak] at hskip
  refine ⟨stage', _, _, hadvances.append [.mappingStart], ?_, .inr ⟨name, ?_, rfl⟩⟩
  · rw [hbreak]
    exact (Spot.pass_indent u _ rfl step).1
  · exact ⟨hexpects.indent, hexpects.outer, hexpects.queue, hexpects.key, hexpects.noted, hskip⟩

/-- **A section.** Its mapping is closed by what follows. -/
theorem advances_section {part : Section} {after : List Char} (hfits : part.Fits)
    (h : AtLine stage s due u) (honset : Onset 0 after) (hrest : u.rest = part.text ++ after) :
    ∃ stage' t due', Advances stage s due part.tokens stage' t due' ∧
      AtLine stage' t due' (u.pass part.text) := by
  obtain ⟨hname, hentries⟩ := hfits
  have htext : part.text = (part.name ++ ':' :: '\n' :: List.replicate step ' ') ++
      (part.first.line ++ (lines part.others ++ List.replicate 0 ' ')) := by
    rw [Section.text, Section.entries, lines_cons]
    simp
  have hrest' : u.rest = (part.name ++ ':' :: '\n' :: List.replicate step ' ') ++
      (part.first.line ++ (lines part.others ++ (List.replicate 0 ' ' ++ after))) := by
    rw [hrest, htext]
    simp
  obtain ⟨named, v, due', hadvances, hentry⟩ := advances_heading hname h
    (Entry.onset (hentries part.first List.mem_cons_self).name step _) hrest'
  obtain ⟨stage', t, text, plain, hadvances', hready, hcolumn⟩ := advances_entries hentries hentry
    honset (Nat.zero_le _) (Spot.rest_pass hrest')
  rw [← Spot.pass_append, ← htext] at hready hcolumn
  exact ⟨stage', t, _, hadvances.trans (hadvances'.append [.blockEnd]), hcolumn,
    .inl ⟨text, plain, hready, rfl⟩⟩

/-! ### Documents -/

/-- Sections start with a token, if what follows them does. -/
theorem onset_sections {parts : List Section} {after : List Char}
    (hfits : ∀ part ∈ parts, part.Fits) (honset : Onset 0 after) :
    Onset 0 (parts.flatMap Section.text ++ after) := by
  cases parts with
  | nil => exact honset
  | cons part parts =>
    rw [List.flatMap_cons, List.append_assoc, Section.text, List.append_assoc]
    exact (hfits part List.mem_cons_self).name.onset 0 _

/-- **Sections**, one after another. -/
theorem advances_sections {parts : List Section} {after : List Char}
    (hfits : ∀ part ∈ parts, part.Fits) (h : AtLine stage s due u) (honset : Onset 0 after)
    (hrest : u.rest = parts.flatMap Section.text ++ after) :
    ∃ stage' t due', Advances stage s due (parts.flatMap Section.tokens) stage' t due' ∧
      AtLine stage' t due' (u.pass (parts.flatMap Section.text)) := by
  induction parts generalizing stage s u due with
  | nil => exact ⟨stage, s, due, ⟨0, [], .refl stage s, by simp, by simp⟩, h⟩
  | cons part parts ih =>
    obtain ⟨hfit, hfits⟩ := List.forall_mem_cons.mp hfits
    rw [List.flatMap_cons, List.append_assoc] at hrest
    obtain ⟨stage', t, due', hadvances, hline⟩ :=
      advances_section hfit h (onset_sections hfits honset) hrest
    obtain ⟨stage'', t', due'', hadvances', hline'⟩ := ih hfits hline (Spot.rest_pass hrest)
    rw [← Spot.pass_append] at hline'
    exact ⟨stage'', t', due'', hadvances.trans hadvances', hline'⟩

/-- Behind the end, when nothing is open, there is only the end. -/
theorem runsIn_past_end (hindent : stage.indent = -1) (houter : stage.outer = [])
    (hkey : stage.key.possible = false) (hqueue : stage.queue.length < 3) (hrest : u.rest = [])
    (hcolumn : u.column = 0) : RunsIn 1 stage u [] (stage.emit .streamEnd false) u := by
  have hstay : Gives (skipToToken false (u.total + 1) stage.keyAllowed) u stage.keyAllowed u :=
    gives_skipToToken_here (k := 0) hrest (by simp)
  obtain ⟨queue, left, indent, outer, key, noted, keyAllowed⟩ := stage
  cases hindent
  cases houter
  exact RunsIn.of_fetches (fetches_end hstay hrest hcolumn rfl rfl hkey) hqueue

/-- **The end** of the text, behind the last value: the section's mapping and the outer one are
closed, and the stream ends. -/
theorem run_end {text : List Char} {plain : Bool} {c : Cursor} (fuel : Nat)
    (h : Ready stage s step [0, -1] [.value, .scalar text plain] u) (hcolumn : u.column = 0)
    (hrest : u.rest = []) (hc : c.At s) :
    (stage.scan c).run (8 + fuel) =
      [.value, .scalar text plain, .blockEnd, .blockEnd, .streamEnd] := by
  obtain ⟨hindent, houter, hqueue, hkey, hnoted, hskip⟩ := h
  have hclose : Scan.closeBlocks 0 stage.outer stage.indent stage.queue =
      ([-1], 0, [.value, .scalar text plain, .blockEnd]) := by
    rw [hindent, houter, hqueue]
    rfl
  have hfetch := RunsIn.of_fetches (fetches_end hskip hrest hcolumn hclose rfl hkey)
    (by simp [hqueue])
  have hleave := hfetch.trans (RunsIn.of_queue [.value, .scalar text plain, .blockEnd]
    [.blockEnd, .streamEnd] rfl (by simp) (by simp) (by simp [Stage.emit, hnoted]))
  have hfetch' := hleave.trans (runsIn_past_end rfl rfl hkey (by simp) hrest hcolumn)
  have hleave' := hfetch'.trans (RunsIn.of_queue [.blockEnd] [.streamEnd, .streamEnd]
    rfl (by simp) (by simp) (by simp [Stage.emit, hnoted]))
  have hfetch'' := hleave'.trans (runsIn_past_end rfl rfl hkey (by simp) hrest hcolumn)
  obtain ⟨c', -, hrun⟩ := hfetch'' c hc
  have hlast := hrun (fuel + 1)
  rw [show 8 + fuel = 1 + 3 + 1 + 1 + 1 + (fuel + 1) by omega]
  refine hlast.trans ?_
  rw [Scan.run]
  simp [Scan.settle, Stage.scan, Stage.emit, hnoted]

/-- The stage at the start of a text. -/
def Stage.start : Stage where
  queue := [.streamStart]
  left := 0
  indent := -1
  outer := []
  key := {}
  noted := []
  keyAllowed := true

/-- The start of a text. -/
def Spot.start (text : List Char) : Spot where
  rest := text
  total := text.length

/-- A text that starts with a token starts a line. -/
theorem atLine_start {text : List Char} (h : Onset 0 text) :
    AtLine .start (.start text) [.streamStart, .mappingStart] (.start text) :=
  ⟨rfl, .inr ⟨⟨rfl, rfl, rfl, rfl, rfl, gives_skipToToken_here (k := 0) rfl h.head⟩, rfl⟩⟩

/-- **The tokens of a text** are those that a run from its start lets out, and what follows. -/
theorem tokens_of_advances {supply : Supply} {last : List Token} (hsound : supply.sound = true)
    (hclear : byteOrderMark ∉ supply.chars)
    (h : Advances .start (.start supply.chars) due new stage t due')
    (hlast : ∀ c : Cursor, c.At t → ∀ fuel, (stage.scan c).run (8 + fuel) = last)
    (hnew : due.length + 2 * new.length ≤ 5 * supply.chars.length + 4) :
    ∃ out, out ++ due' = due ++ new ∧ tokens supply = out ++ last := by
  obtain ⟨n, out, hrun, hout, hsteps⟩ := h
  have hstart : supply.cursor.At (.start supply.chars) :=
    ⟨rfl, rfl, rfl, rfl, rfl, rfl, hsound, rfl, hclear, by simp [Spot.start]⟩
  obtain ⟨c, hdemand, hc⟩ := hstart.demand 1
  have hscan : supply.scan? = some (Stage.start.scan c) := by
    rw [Supply.scan?, hdemand]
    rfl
  obtain ⟨c', hc', hrun⟩ := hrun c hc
  refine ⟨out, hout, ?_⟩
  rw [tokens, hscan]
  show (Stage.start.scan c).run (5 * supply.chars.length + 12) = out ++ last
  rw [show 5 * supply.chars.length + 12 = n + (8 + (5 * supply.chars.length + 4 - n)) by omega,
    hrun,
    hlast c' hc']

/-- The tokens of entries are bounded by their text. -/
theorem Entry.length_tokens_le (entries : List Entry) :
    2 * (entries.flatMap Entry.tokens).length ≤ 5 * (lines entries).length := by
  induction entries with
  | nil => simp [lines]
  | cons entry entries ih =>
    have hline : 2 ≤ entry.line.length := by simp [Entry.line]; omega
    rw [lines_cons, List.flatMap_cons]
    simp only [List.length_append, Entry.tokens, List.length_cons, List.length_nil,
      List.length_replicate, step]
    omega

/-- The tokens of sections are bounded by their text. -/
theorem Section.length_tokens_le (parts : List Section) :
    2 * (parts.flatMap Section.tokens).length ≤ 5 * (parts.flatMap Section.text).length := by
  induction parts with
  | nil => simp
  | cons part parts ih =>
    have hentries := Entry.length_tokens_le part.entries
    rw [List.flatMap_cons, List.flatMap_cons]
    simp only [Section.text, Section.tokens, openSection, List.length_append, List.length_cons,
      List.length_nil]
    omega

/-- The last token of a section ends its block. -/
theorem Section.getLast?_tokens (part : Section) (parts : List Section) :
    ((part :: parts).flatMap Section.tokens).getLast? = some .blockEnd := by
  induction parts generalizing part with
  | nil => simp [Section.tokens]
  | cons part' parts ih => rw [List.flatMap_cons, List.getLast?_append, ih, Option.some_or]

/-- **The tokens of a document** are those of a mapping whose fields are its sections. -/
theorem tokens_of_sections {supply : Supply} {part : Section} {parts : List Section}
    (hsound : supply.sound = true) (hclear : byteOrderMark ∉ supply.chars)
    (hfits : ∀ p ∈ part :: parts, p.Fits)
    (hchars : supply.chars = (part :: parts).flatMap Section.text) :
    tokens supply = [.streamStart, .mappingStart] ++ (part :: parts).flatMap Section.tokens ++
      [.blockEnd, .streamEnd] := by
  have hend : Onset 0 [] := .inl ⟨rfl, rfl⟩
  have hrest : supply.chars = (part :: parts).flatMap Section.text ++ [] := by
    rw [hchars, List.append_nil]
  have honset : Onset 0 supply.chars := by
    rw [hrest]
    exact onset_sections hfits hend
  obtain ⟨stage, t, due, hadvances, hline⟩ :=
    advances_sections hfits (atLine_start honset) hend hrest
  have hlength := Section.length_tokens_le (part :: parts)
  rw [← hchars] at hlength
  obtain ⟨hcolumn, ⟨text, plain, hready, rfl⟩ | ⟨hready, rfl⟩⟩ := hline
  · obtain ⟨out, hout, htokens⟩ := tokens_of_advances hsound hclear hadvances
      (fun c hc fuel => run_end fuel hready hcolumn (Spot.rest_pass hrest) hc)
      (by simp only [List.length_cons, List.length_nil]; omega)
    rw [htokens, ← hout]
    simp
  · obtain ⟨n, out, -, hout, -⟩ := hadvances
    have hlast := congrArg List.getLast? hout
    rw [List.getLast?_append, List.getLast?_append, Section.getLast?_tokens] at hlast
    cases hlast

end DocHarvest.Yaml
