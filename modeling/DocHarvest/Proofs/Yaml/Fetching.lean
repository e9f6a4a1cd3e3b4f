import DocHarvest.Yaml.Token
import DocHarvest.Proofs.Yaml.Words

/-!
# Fetching Tokens

One fetch moves to the next token, closes the collections that the token's column ends, and reads
the token. Outside brackets there is one possible key at most, so the state of a scan is its cursor
and a handful of values besides, a stage; what a fetch does is said about the stage and the spot of
the cursor.

## Main definitions

* `Yaml.Stage` — the state of a scan outside brackets, without its cursor.
* `Yaml.Fetches` — what one fetch makes of a stage at a spot.

## Main results

* `Yaml.gives_skipToToken_here`, `Yaml.gives_skipToToken_line` — moving to the next token, on the
  same line and on the next.
* `Yaml.fetches_of_fetchAt` — a fetch, from what the character at the token starts.
* `Yaml.fetches_name`, `Yaml.fetches_colon`, `Yaml.fetches_end` — a name that may be a key, the
  colon that makes it one, and the end of the text.
-/

namespace DocHarvest.Yaml

variable {s t u : Spot}

/-! ### Moving to a token -/

/-- The next token on the line. -/
theorem gives_skipToToken_here {k fuel : Nat} {keyAllowed : Bool} {after : List Char}
    (hrest : s.rest = List.replicate k ' ' ++ after)
    (hafter : ∀ c ∈ after.head?, isBlank c = false ∧ isBreak c = false ∧ c ≠ '#') :
    Gives (skipToToken false (fuel + 1) keyAllowed) s keyAllowed
      (s.pass (List.replicate k ' ')) := by
  have hpast := Spot.rest_pass hrest
  have hskip : Gives
      (Reader.skipWhile fun ch => ch = ' ' || ((false || !keyAllowed) && ch = '\t')) s ()
      (s.pass (List.replicate k ' ')) := by
    refine gives_skipWhile hrest ?_ ?_
    · intro c hc
      rw [List.eq_of_mem_replicate hc]
      exact ⟨rfl, rfl⟩
    · intro c hc
      have := (hafter c hc).1
      simp only [isBlank, Bool.or_eq_false_iff, decide_eq_false_iff_not] at this
      simp [this]
  have hhash : after.head? ≠ some '#' := fun h => (hafter '#' h).2.2 rfl
  have hbreak : atBreak after.head? = false := by
    cases hhead : after.head? with
    | none => rfl
    | some c => exact (hafter c hhead).2.1
  refine (gives_demand 1 s).bind (.get fun c hc => ?_)
  simp only [hc.marked, Bool.and_false, Bool.false_eq_true, if_false]
  refine hskip.bind ((gives_head? _).bind ?_)
  rw [hpast, if_neg hhash]
  refine (gives_head? _).bind ?_
  rw [hpast, if_neg (by simp [hbreak])]
  exact .pure _ _

/-- The next token on the next line. -/
theorem gives_skipToToken_line {k : Nat} {keyAllowed : Bool} {b : Char} {after : List Char}
    (hrest : s.rest = b :: (List.replicate k ' ' ++ after)) (hb : isBreak b = true)
    (hreturn : b ≠ '\r')
    (hafter : ∀ c ∈ after.head?, isBlank c = false ∧ isBreak c = false ∧ c ≠ '#') :
    Gives (skipToToken false (s.total + 1) keyAllowed) s true
      (s.pass (b :: List.replicate k ' ')) := by
  have hblank := isBlank_of_isBreak hb
  have hskip : Gives
      (Reader.skipWhile fun ch => ch = ' ' || ((false || !keyAllowed) && ch = '\t')) s () s := by
    refine gives_skipWhile (List.nil_append (b :: _) ▸ hrest) (by simp) ?_
    intro c hc
    obtain rfl : b = c := by simpa using hc
    simp only [isBlank, Bool.or_eq_false_iff, decide_eq_false_iff_not] at hblank
    simp [hblank]
  have hhash : b ≠ '#' := by
    rintro rfl
    cases hb
  refine (gives_demand 1 s).bind (.get fun c hc => ?_)
  obtain ⟨fuel, hfuel⟩ : ∃ n, s.total = n + 1 := by
    have hfits := hc.fits
    rw [hrest, List.length_cons] at hfits
    exact ⟨s.total - 1, by omega⟩
  rw [hfuel]
  simp only [hc.marked, Bool.and_false, Bool.false_eq_true, if_false]
  refine hskip.bind ((gives_head? _).bind ?_)
  rw [hrest, List.head?_cons, if_neg (by simpa using hhash)]
  refine (gives_head? _).bind ?_
  rw [hrest, List.head?_cons, if_pos (show atBreak (some b) = true from hb), Bool.not_false,
    Bool.or_true]
  exact (gives_skipBreak hrest hb hreturn).bind
    (gives_skipToToken_here (Spot.rest_pass_cons hrest) hafter)

/-- No comment is found ahead where none starts. -/
theorem gives_commentAhead? {k n fuel : Nat} {after : List Char}
    (hrest : s.rest.drop n = List.replicate k ' ' ++ after)
    (hafter : ∀ c ∈ after.head?, isBlank c = false ∧ c ≠ '#') :
    Gives (commentAhead? false fuel n) s none s := by
  induction fuel generalizing n k with
  | zero => exact .pure _ _
  | succ fuel ih =>
    refine (gives_demand (n + 1) s).bind ((gives_peek? n s).bind ?_)
    have hhead : s.rest[n]? = (List.replicate k ' ' ++ after).head? := by
      rw [← hrest, List.head?_drop]
    rw [hhead]
    cases k with
    | zero =>
      rw [List.replicate_zero, List.nil_append]
      cases hc : after.head? with
      | none => exact .pure _ _
      | some c =>
        obtain ⟨hblank, hhash⟩ := hafter c hc
        simp only [hhash, hblank, Bool.false_and, Bool.or_self, Bool.false_eq_true, if_false]
        exact .pure _ _
    | succ k =>
      refine ih (k := k) ?_
      rw [← List.tail_drop, hrest]
      rfl

/-- Behind a token no comment follows on its line. -/
theorem gives_skipLineComment
    (h : s.afterBreak = true ∨ ∃ k after, s.rest = List.replicate k ' ' ++ after ∧
      ∀ c ∈ after.head?, isBlank c = false ∧ c ≠ '#') :
    Gives skipLineComment s () s := by
  refine .get fun c hc => ?_
  rw [hc.afterBreak]
  cases hbreak : s.afterBreak with
  | true => exact .pure _ _
  | false =>
    obtain ⟨k, after, hrest, hafter⟩ := h.resolve_left (by simp [hbreak])
    exact (gives_commentAhead? (n := 0) hrest hafter).bind (.pure _ _)

/-! ### Stages -/

/-- The state of a scan outside brackets, without its cursor. -/
structure Stage where
  queue : List Token
  left : Nat
  indent : Int
  outer : List Int
  key : PossibleKey
  noted : List (Nat × Nat)
  keyAllowed : Bool

/-- The scan at a stage with a cursor. -/
def Stage.scan (stage : Stage) (cursor : Cursor) : Scan :=
  { cursor
    queue := stage.queue
    left := stage.left
    indent := stage.indent
    outer := stage.outer
    keys := [stage.key]
    noted := stage.noted
    keyAllowed := stage.keyAllowed }

/-- **What one fetch makes of a stage at a spot.** -/
def Fetches (stage : Stage) (s : Spot) (stage' : Stage) (t : Spot) : Prop :=
  ∀ c : Cursor, c.At s → ∃ c', (stage.scan c).fetch = some (stage'.scan c') ∧ c'.At t

/-- A reader at a stage. -/
theorem Stage.read_scan {α : Type} {reader : Reader α} {a : α} {c : Cursor} (stage : Stage)
    (h : Gives reader s a t) (hc : c.At s) :
    ∃ c', (stage.scan c).read reader = some (a, stage.scan c') ∧ c'.At t := by
  obtain ⟨c', hrun, hc'⟩ := h c hc
  refine ⟨c', ?_, hc'⟩
  rw [Scan.read, show (stage.scan c).cursor = c from rfl, hrun]
  rfl

/-- A fetch goes to the next token, and does what its first character calls for. -/
theorem Stage.fetch_scan {stage : Stage} {keyAllowed : Bool} {ch : Char} {after : List Char}
    {outer : List Int} {indent : Int} {queue : List Token} {c : Cursor}
    (hskip : Gives (skipToToken false (s.total + 1) stage.keyAllowed) s keyAllowed t)
    (hrest : t.rest = ch :: after) (hmark : 0 < t.column ∨ ch ≠ '%' ∧ ch ≠ '-' ∧ ch ≠ '.')
    (hclose : Scan.closeBlocks t.column stage.outer stage.indent stage.queue =
      (outer, indent, queue)) (hc : c.At s) :
    ∃ c', c'.At t ∧ (stage.scan c).fetch =
      ((Stage.scan { stage with keyAllowed, outer, indent, queue } c').fetchAt ch).bind
        Scan.afterToken := by
  obtain ⟨c₁, hread, hc₁⟩ := stage.read_scan hskip hc
  have hunroll : (Stage.scan { stage with keyAllowed } c₁).unroll c₁.column =
      Stage.scan { stage with keyAllowed, outer, indent, queue } c₁ := by
    have hclose' : Scan.closeBlocks c₁.column stage.outer stage.indent stage.queue = _ :=
      hc₁.column ▸ hclose
    simp [Scan.unroll, Scan.inFlow, Stage.scan, hclose']
  obtain ⟨c₂, hdemand, hc₂⟩ :=
    Stage.read_scan { stage with keyAllowed, outer, indent, queue } (gives_demand 4 t) hc₁
  have hpercent : ¬((decide (c₂.column = 0) && decide (ch = '%')) = true) := by
    rw [hc₂.column]
    obtain h | h := hmark
    · simp [Nat.ne_of_gt h]
    · simp [h.1]
  have hdash : ¬(c₂.atMark '-' = true) := by
    rw [hc₂.atMark, hrest]
    obtain h | h := hmark
    · simp [Nat.ne_of_gt h]
    · simp [h.2.1]
  have hdot : ¬(c₂.atMark '.' = true) := by
    rw [hc₂.atMark, hrest]
    obtain h | h := hmark
    · simp [Nat.ne_of_gt h]
    · simp [h.2.2]
  have hhead : c₂.head? = some ch := by
    rw [hc₂.head?, hrest, List.head?_cons]
  refine ⟨c₂, hc₂, ?_⟩
  simp only [Stage.scan] at hread hunroll hdemand ⊢
  simp only [Scan.fetch, Scan.inFlow, hc.total, hread, hunroll, Scan.move, hdemand, hhead, hpercent,
    hdash, hdot, Option.bind_eq_bind, Option.bind_some, Option.map_some, if_false,
    Bool.false_eq_true]

/-- A fetch, from what the character at the token starts there. -/
theorem fetches_of_fetchAt {stage stage' : Stage} {keyAllowed : Bool} {ch : Char}
    {after : List Char} {outer : List Int} {indent : Int} {queue : List Token}
    (hskip : Gives (skipToToken false (s.total + 1) stage.keyAllowed) s keyAllowed t)
    (hrest : t.rest = ch :: after) (hmark : 0 < t.column ∨ ch ≠ '%' ∧ ch ≠ '-' ∧ ch ≠ '.')
    (hclose : Scan.closeBlocks t.column stage.outer stage.indent stage.queue =
      (outer, indent, queue))
    (hfetch : ∀ c : Cursor, c.At t → ∃ c',
      (Stage.scan { stage with keyAllowed, outer, indent, queue } c).fetchAt ch =
        some (stage'.scan c') ∧ c'.At u)
    (hlast : stage'.queue.getLast? ≠ some .blockEntry) (hcomment : Gives skipLineComment u () u) :
    Fetches stage s stage' u := by
  intro c hc
  obtain ⟨c₁, hc₁, heq⟩ := Stage.fetch_scan hskip hrest hmark hclose hc
  obtain ⟨c₂, hfetch, hc₂⟩ := hfetch c₁ hc₁
  obtain ⟨c₃, hcomment, hc₃⟩ := stage'.read_scan hcomment hc₂
  refine ⟨c₃, ?_, hc₃⟩
  rw [heq, hfetch, Option.bind_some, Scan.afterToken,
    if_neg (show (stage'.scan c₂).queue.getLast? ≠ _ from hlast), Scan.move, hcomment]
  rfl

/-! ### Names and colons -/

/-- What starts plain text is fetched as plain text, a hyphen before a gap apart. -/
theorem fetchAt_plain {scan : Scan} {ch : Char} (hflow : scan.inFlow = false)
    (hstarts : Scan.startsPlain false ch (scan.cursor.peek? 1) = true)
    (hdash : ch = '-' → atGap (scan.cursor.peek? 1) = false) :
    scan.fetchAt ch = scan.fetchPlain := by
  have hne : ∀ c : Char, Scan.startsPlain false c (scan.cursor.peek? 1) = false → ch ≠ c := by
    rintro c hc rfl
    exact Bool.false_ne_true (hc.symm.trans hstarts)
  have hgap : ∀ c : Char, (c = '?' ∨ c = ':') → ch = c → atGap (scan.cursor.peek? 1) = false := by
    rintro c hc rfl
    obtain rfl | rfl := hc <;> simpa [Scan.startsPlain] using hstarts
  unfold Scan.fetchAt
  simp only [hne '[' rfl, hne '\x7b' rfl, hne ']' rfl, hne '\x7d' rfl, hne ',' rfl, hne '*' rfl,
    hne '&' rfl, hne '!' rfl, hne '|' rfl, hne '>' rfl, hne '\'' rfl, hne '"' rfl, hflow, hstarts,
    if_false, if_true, decide_false, Bool.false_and, Bool.false_or, Bool.false_eq_true]
  rw [if_neg, if_neg, if_neg]
  · simp only [Bool.and_eq_true, decide_eq_true_eq]
    exact fun h => by simp [hgap ':' (.inr rfl) h.1] at h
  · simp only [Bool.and_eq_true, decide_eq_true_eq]
    exact fun h => by simp [hgap '?' (.inl rfl) h.1] at h
  · simp only [Bool.and_eq_true, decide_eq_true_eq]
    exact fun h => by simp [hdash h.1] at h

/-- The stage at which the next token may be a key that stands at a spot. -/
def Stage.saved (stage : Stage) (s : Spot) : Stage :=
  { stage with
    key :=
      { possible := true
        required := stage.indent = s.column
        number := stage.left + stage.queue.length
        index := s.index
        line := s.line
        column := s.column }
    noted := (stage.left + stage.queue.length, 0) :: stage.noted }

/-- Where a key is allowed, it is noted as a possible one. -/
theorem Stage.saveKey_scan {stage : Stage} {c : Cursor} (hc : c.At s)
    (hallowed : stage.keyAllowed = true) (hkey : stage.key.possible = false) :
    (stage.scan c).saveKey = some ((stage.saved s).scan c) := by
  simp [Scan.saveKey, Scan.dropKey, Stage.scan, Scan.inFlow, Scan.nextNumber, Stage.saved,
    hallowed, hkey, hc.index, hc.line, hc.column]

/-- The stage behind a token after which a key may start or not. -/
def Stage.emit (stage : Stage) (token : Token) (keyAllowed : Bool) : Stage :=
  { stage with queue := stage.queue ++ [token], keyAllowed }

/-- Plain text at a stage, where what may be a key has been saved. -/
theorem Stage.fetchPlain_scan {stage stage' : Stage} {c : Cursor} {plain : Plain} (hc : c.At s)
    (hsave : (stage.scan c).saveKey = some (stage'.scan c))
    (hplain : Gives (readPlain false stage.indent) s plain t) :
    ∃ c', (stage.scan c).fetchPlain =
      some ((stage'.emit (.scalar plain.text true) plain.broken).scan c') ∧ c'.At t := by
  obtain ⟨c', hread, hc'⟩ := stage'.read_scan hplain hc
  refine ⟨c', ?_, hc'⟩
  simp only [Scan.fetchPlain, hsave, Option.bind_eq_bind, Option.bind_some,
    show (stage.scan c).inFlow = false from rfl, show (stage.scan c).indent = stage.indent from rfl,
    hread]
  rfl

/-- **A name before a colon** is fetched as a scalar that may be a key. -/
theorem fetches_name {stage : Stage} {name after : List Char} {outer : List Int} {indent : Int}
    {queue : List Token} (hname : isName name = true) (hafter : atGap after.head? = true)
    (hskip : Gives (skipToToken false (s.total + 1) stage.keyAllowed) s true t)
    (hrest : t.rest = name ++ ':' :: after)
    (hclose : Scan.closeBlocks t.column stage.outer stage.indent stage.queue =
      (outer, indent, queue))
    (hkey : stage.key.possible = false) :
    Fetches stage s
      ((Stage.saved { stage with outer, indent, queue } t).emit (.scalar name true) false)
      (t.pass name) := by
  have hne : name ≠ [] := by
    rintro rfl
    cases hname
  obtain ⟨ch, name', hcons⟩ := List.exists_cons_of_ne_nil hne
  have hch : ch ∈ name := hcons ▸ List.mem_cons_self
  have hother : ∀ {d : Char}, (d.isAlphanum || decide (d = '_')) = false → ch ≠ d :=
    fun hd => ne_of_isName hname hch hd
  have hcolon : (t.pass name).rest = ':' :: after := Spot.rest_pass hrest
  have hfirst : t.rest = ch :: (name' ++ ':' :: after) := by
    rw [hrest, hcons]
    rfl
  refine fetches_of_fetchAt hskip hfirst (.inr ⟨hother rfl, hother rfl, hother rfl⟩) hclose ?_
    (by simp [Stage.emit]) ?_
  · intro c hc
    have hstarts : Scan.startsPlain false ch (c.peek? 1) = true := by
      simp [Scan.startsPlain, gap_of_isName hname hch, hother]
    rw [fetchAt_plain rfl hstarts fun h => absurd h (hother rfl)]
    exact Stage.fetchPlain_scan hc (Stage.saveKey_scan hc rfl (by exact hkey))
      (gives_readPlain_name hname hrest hafter)
  · exact gives_skipLineComment (.inr ⟨0, ':' :: after, hcolon, by simp [isBlank]⟩)

/-- No block is closed that is not indented deeper. -/
theorem closeBlocks_of_le {column indent : Int} (h : indent ≤ column) (outer : List Int)
    (tokens : List Token) :
    Scan.closeBlocks column outer indent tokens = (outer, indent, tokens) := by
  cases outer <;> simp [Scan.closeBlocks, Int.not_lt.mpr h]

/-- An element is inserted where the second part of a list begins. -/
theorem insertIdx_length_append (l r : List Token) (a : Token) :
    (l ++ r).insertIdx l.length a = l ++ a :: r := by
  induction l with
  | nil => rfl
  | cons b l ih => simp [ih]

/-- The stage at which the last token in the queue has been marked as a key. A mapping is opened
before it when none is open in its column. -/
def Stage.marked (stage : Stage) : Stage :=
  { stage with
    queue := stage.queue.dropLast ++
      (if stage.indent < stage.key.column then [.mappingStart] else []) ++
        .key :: stage.queue.getLast?.toList
    indent := max stage.indent stage.key.column
    outer := if stage.indent < stage.key.column then stage.indent :: stage.outer else stage.outer
    key := { stage.key with possible := false }
    noted := []
    keyAllowed := false }

/-- A possible key is marked as one, in front of its token. -/
theorem Stage.markKey_scan {stage : Stage} {c : Cursor} (hqueue : stage.queue ≠ [])
    (hnumber : stage.key.number + 1 = stage.left + stage.queue.length)
    (hnoted : stage.noted = [(stage.key.number, 0)]) (hdepth : stage.outer.length < maxDepth) :
    (stage.scan c).markKey stage.key = some (stage.marked.scan c) := by
  obtain ⟨queue, token, htoken⟩ : ∃ queue token, stage.queue = queue ++ [token] :=
    ⟨_, _, (List.dropLast_concat_getLast hqueue).symm⟩
  have hindex : stage.key.number - stage.left = queue.length := by
    rw [htoken, List.length_append, List.length_singleton] at hnumber
    omega
  have hleft : ¬stage.key.number < stage.left := by
    rw [htoken, List.length_append, List.length_singleton] at hnumber
    omega
  by_cases hroll : stage.indent < stage.key.column
  · simp [Scan.markKey, Scan.emitBefore, Scan.roll, Scan.inFlow, Scan.forget, Stage.scan,
      Stage.marked, hleft, hindex, htoken, insertIdx_length_append, hroll, hnoted,
      Nat.not_le.mpr hdepth]
    omega
  · simp [Scan.markKey, Scan.emitBefore, Scan.roll, Scan.inFlow, Scan.forget, Stage.scan,
      Stage.marked, hleft, hindex, htoken, insertIdx_length_append, hroll, hnoted]
    omega

/-- **A colon behind a name** makes it a key. -/
theorem fetches_colon {stage : Stage} {after : List Char} (hrest : s.rest = ':' :: after)
    (hafter : atGap after.head? = true)
    (hcomment : Gives skipLineComment (s.pass [':']) () (s.pass [':']))
    (hcolumn : stage.indent ≤ s.column) (hpositive : 0 < s.column) (hqueue : stage.queue ≠ [])
    (hkey : stage.key.possible = true)
    (hnumber : stage.key.number + 1 = stage.left + stage.queue.length)
    (hline : stage.key.line = s.line) (hindex : s.index ≤ stage.key.index + maxKey)
    (hnoted : stage.noted = [(stage.key.number, 0)]) (hdepth : stage.outer.length < maxDepth) :
    Fetches stage s (stage.marked.emit .value false) (s.pass [':']) := by
  have hskip : Gives (skipToToken false (s.total + 1) stage.keyAllowed) s stage.keyAllowed s :=
    gives_skipToToken_here (k := 0) hrest (by simp [isBlank, isBreak])
  refine fetches_of_fetchAt hskip hrest (.inl hpositive) (closeBlocks_of_le hcolumn _ _) ?_
    (by simp [Stage.emit]) hcomment
  intro c hc
  obtain ⟨c', hmove, hc'⟩ := stage.marked.read_scan (gives_skip_one hrest rfl) hc
  have hgap : atGap (c.peek? 1) = true := by
    rw [hc.peek?, hrest, List.getElem?_cons_succ, ← List.head?_eq_getElem?]
    exact hafter
  have hcheck : (stage.scan c).checkKey 0 = some (true, stage.scan c) := by
    simp [Scan.checkKey, Stage.scan, hkey, hc.line, hline, hc.index, Nat.not_lt.mpr hindex]
  have hvalue : (stage.scan c).fetchAt ':' = (stage.scan c).fetchValue := by
    have : (stage.scan c).cursor.peek? 1 = c.peek? 1 := rfl
    simp [Scan.fetchAt, this, hgap]
  refine ⟨c', ?_, hc'⟩
  show (stage.scan c).fetchAt ':' = _
  rw [hvalue, Scan.fetchValue, hcheck]
  show ((stage.scan c).markKey stage.key >>= fun s => s.take 1 .value) = _
  rw [Stage.markKey_scan hqueue hnumber hnoted hdepth]
  show (((stage.marked.scan c).read (Reader.skip 1)).map Prod.snd >>=
    fun s => some (s.emit .value)) = _
  rw [hmove]
  rfl

/-! ### Quotes and blocks -/

/-- Text in quotes at a stage where no key may start. -/
theorem Stage.fetchQuoted_scan {stage : Stage} {c : Cursor} {double : Bool} {text : List Char}
    (hc : c.At s) (hallowed : stage.keyAllowed = false) (h : Gives (readQuoted double) s text t) :
    ∃ c', (stage.scan c).fetchQuoted double =
      some ((stage.emit (.scalar text false) false).scan c') ∧ c'.At t := by
  obtain ⟨c', hread, hc'⟩ := stage.read_scan h hc
  have hsave : (stage.scan c).saveKey = some (stage.scan c) := by
    simp [Scan.saveKey, Stage.scan, hallowed]
  refine ⟨c', ?_, hc'⟩
  simp only [Scan.fetchQuoted, hsave, Option.bind_eq_bind, Option.bind_some, hread]
  rfl

/-- A literal block at a stage without a possible key. -/
theorem Stage.fetchBlock_scan {stage : Stage} {c : Cursor} {text : List Char} (hc : c.At s)
    (hkey : stage.key.possible = false) (h : Gives (readBlock false stage.indent) s text t) :
    ∃ c', (stage.scan c).fetchBlock false =
      some ((stage.emit (.scalar text false) true).scan c') ∧ c'.At t := by
  obtain ⟨c', hread, hc'⟩ := stage.read_scan h hc
  have hdrop : (stage.scan c).dropKey = some (stage.scan c) := by
    simp [Scan.dropKey, Stage.scan, hkey]
  refine ⟨c', ?_, hc'⟩
  simp only [Scan.fetchBlock, hdrop, Option.bind_eq_bind, Option.bind_some,
    show (stage.scan c).indent = stage.indent from rfl, hread]
  rfl

/-! ### The end of the text -/

/-- **The end of the text** closes what is open. -/
theorem fetches_end {stage : Stage} {keyAllowed : Bool} {outer outer' : List Int}
    {indent indent' : Int} {queue queue' : List Token}
    (hskip : Gives (skipToToken false (s.total + 1) stage.keyAllowed) s keyAllowed t)
    (hrest : t.rest = []) (hcolumn : t.column = 0)
    (hclose : Scan.closeBlocks 0 stage.outer stage.indent stage.queue = (outer, indent, queue))
    (hclose' : Scan.closeBlocks (-1) outer indent queue = (outer', indent', queue'))
    (hkey : stage.key.possible = false) :
    Fetches stage s
      (Stage.emit { stage with outer := outer', indent := indent', queue := queue' } .streamEnd
        false)
      t := by
  intro c hc
  obtain ⟨c₁, hread, hc₁⟩ := stage.read_scan hskip hc
  obtain ⟨c₂, hdemand, hc₂⟩ :=
    Stage.read_scan { stage with keyAllowed, outer, indent, queue } (gives_demand 4 t) hc₁
  have hzero : c₁.column = 0 ∧ c₂.column = 0 := ⟨hc₁.column.trans hcolumn, hc₂.column.trans hcolumn⟩
  have hhead : c₂.head? = none := by
    rw [hc₂.head?, hrest, List.head?_nil]
  refine ⟨c₂, ?_, hc₂⟩
  simp only [Stage.scan] at hread hdemand ⊢
  simp [Scan.fetch, Scan.inFlow, hc.total, hread, Scan.unroll, Scan.move, hdemand, hhead, hzero,
    hclose, hclose', Scan.fetchEnd, Scan.reset, Scan.dropKey, Cursor.endLine, hkey, Scan.emit,
    Stage.emit]

end DocHarvest.Yaml
