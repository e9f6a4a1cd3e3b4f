import DocHarvest.Proofs.Yaml.Documents

/-!
# Documents That Are Refused

A literal block whose text starts with a tab cannot be read: behind the spaces of its first line,
which are to show the indentation, no tab may stand. The tokens end in front of the name of its
entry, with the mark of a key that never comes, and a document cannot be made of them.

## Main definitions

* `Yaml.Refuses` — a reader gives nothing at a spot.

## Main results

* `Yaml.refuses_readBlock` — a block that starts with a tab is refused.
* `Yaml.tokens_of_refused` — the tokens in front of a refused value.
* `Yaml.document?_refused` — they make no document.
-/

namespace DocHarvest.Yaml

/-! ### What readers refuse -/

/-- **A reader gives nothing at a spot**, whatever the window is. -/
def Refuses {α : Type} (reader : Reader α) (s : Spot) : Prop :=
  ∀ c : Cursor, c.At s → reader.run c = none

section Rules

variable {α β : Type} {s t : Spot} {a : α}

/-- A reader that gives its value to one that refuses refuses. -/
theorem Gives.refuses {reader : Reader α} {next : α → Reader β} (h : Gives reader s a t)
    (h' : Refuses (next a) t) : Refuses (reader >>= next) s := by
  intro c hc
  obtain ⟨c', hrun, hc'⟩ := h c hc
  rw [StateT.run_bind, hrun]
  exact h' c' hc'

/-- What follows a reader that refuses does not matter. -/
theorem Refuses.bind {reader : Reader α} (h : Refuses reader s) (next : α → Reader β) :
    Refuses (reader >>= next) s := by
  intro c hc
  rw [StateT.run_bind, h c hc]
  rfl

/-- A reader refuses that does so from every cursor at its spot. -/
theorem Refuses.get {next : Cursor → Reader β} (h : ∀ c : Cursor, c.At s → Refuses (next c) s) :
    Refuses (MonadState.get >>= next) s :=
  fun c hc => h c hc c hc

end Rules

variable {s t u : Spot} {stage : Stage} {due : List Token}

/-! ### Blocks -/

/-- A tab behind spaces that are to show the indentation. -/
theorem refuses_readBreaks {b : Breaks} {k fuel : Nat} {after : List Char}
    (hindentation : b.indentation = 0)
    (hrest : s.rest = List.replicate k ' ' ++ '\t' :: after) :
    Refuses (readBreaks (fuel + 1) b) s := by
  refine (gives_demand 1 s).refuses (.get fun c hc => ?_)
  have hk : k ≤ c.total := by
    have hfits := hc.fits
    rw [hrest, List.length_append, List.length_replicate] at hfits
    rw [hc.total]
    omega
  refine (gives_skipIndentation hrest (absurd hindentation) (by simp) hk).refuses ?_
  refine .get fun c' hc' => ?_
  have hhead : c'.head? = some '\t' := by
    rw [hc'.head?, Spot.rest_pass hrest, List.head?_cons]
  simp only [hindentation, hhead, decide_true, Bool.true_or, Bool.and_self, if_true]
  exact Refuses.bind (fun c hc => rfl) _

/-- **A block whose first line starts with a tab**, behind the spaces that are to show its
indentation. -/
theorem refuses_readBlock {indent : Int} {chomping : Chomping} {k : Nat} {after : List Char}
    (hrest : s.rest = '|' :: (chomping.mark ++ '\n' :: (List.replicate k ' ' ++ '\t' :: after))) :
    Refuses (readBlock false indent) s := by
  have hmarks := Spot.rest_pass_cons hrest
  have hbreak := Spot.rest_pass hmarks
  refine (gives_skip_one hrest rfl).refuses ?_
  refine (gives_readMarks false chomping rfl hmarks).refuses ?_
  refine (gives_endHeader rfl (by decide) hbreak).refuses ?_
  refine Refuses.bind (.get fun c hc => ?_) _
  exact (refuses_readBreaks rfl (Spot.rest_pass_cons hbreak)).bind _

/-- How a value is written that is refused. -/
theorem Refused.exists_lines {v : List Char} (h : Refused v) :
    ∃ (chomping : Chomping) (k : Nat) (after : List Char), endLine (written 2 v) =
      '|' :: (chomping.mark ++ '\n' :: (List.replicate k ' ' ++ '\t' :: after)) := by
  obtain ⟨hstyle, htab⟩ := h
  obtain ⟨-, hne⟩ := keepsBreaks_of_style hstyle
  obtain ⟨chomping, hmark, -⟩ := exists_chomping hne
  have hmarks : marksIndentation v = false := by
    simp [marksIndentation, htab, atBreak, isBreak]
  obtain ⟨after, hafter⟩ := List.head?_eq_some_iff.mp ((head?_closedLines v).trans htab)
  refine ⟨chomping, 2 * step, indentLines 2 false after, ?_⟩
  rw [written, hstyle]
  simp only [endLine_literalBlock 2 hne, hmark, indentationMark_eq, hmarks, hafter]
  rfl

/-- **A refused value** ends the tokens. -/
theorem run_refused {name v after : List Char} (h : Expects stage step [0, -1] name)
    (hv : Refused v) (hcolumn : step ≤ s.column)
    (hrest : s.rest = ' ' :: (endLine (written 2 v) ++ after)) (fuel : Nat) {c : Cursor}
    (hc : c.At s) : (stage.scan c).run fuel = [] := by
  obtain ⟨chomping, k, after', hlines⟩ := hv.exists_lines
  rw [hlines] at hrest
  have hcolumn' : (s.pass [' ']).column = s.column + 1 := (Spot.pass_line (by simp [isBreak])).1
  have hskip : Gives (skipToToken false (s.total + 1) stage.keyAllowed) s stage.keyAllowed
      (s.pass [' ']) :=
    gives_skipToToken_here (k := 1) hrest (by simp [isBlank, isBreak])
  obtain ⟨c', hc', hfetch⟩ := Stage.fetch_scan hskip (Spot.rest_pass_cons hrest)
    (.inl (by omega)) (closeBlocks_of_le (by rw [h.indent]; omega) _ _) hc
  have hblock : (readBlock false stage.indent).run c' = none :=
    refuses_readBlock
      (by simpa using (Spot.rest_pass_cons hrest : (s.pass [' ']).rest = _)) c' hc'
  have hdrop : (stage.scan c').dropKey = some (stage.scan c') := by
    simp [Scan.dropKey, Stage.scan, h.key]
  have hnone : (stage.scan c).fetch = none := by
    rw [hfetch]
    show ((stage.scan c').fetchBlock false).bind Scan.afterToken = none
    simp only [Scan.fetchBlock, hdrop, Scan.read, Option.bind_eq_bind, Option.bind_some,
      show (stage.scan c').indent = stage.indent from rfl,
      show (stage.scan c').cursor = c' from rfl,
      hblock]
    rfl
  have hsettle : (stage.scan c).settle = some (false, stage.scan c) := by
    simp [Scan.settle, Stage.scan, h.queue]
  cases fuel with
  | zero => rfl
  | succ fuel =>
    rw [Scan.run, hsettle]
    simp only [hnone]

/-! ### Documents -/

/-- A section that stops in front of the name of an entry. -/
theorem advances_stopped_section {name : List Char} {entries : List Entry} {next : List Char}
    (hname : IsKeyName name) (hentries : ∀ entry ∈ entries, entry.Fits) (h : AtLine stage s due u)
    (honset : Onset step next)
    (hrest : u.rest = (name ++ ':' :: '\n' :: (lines entries ++ List.replicate step ' ')) ++ next) :
    ∃ stage' t due',
      Advances stage s due (openSection name ++ entries.flatMap Entry.tokens) stage' t due' ∧
        AtEntry stage' t due'
          (u.pass (name ++ ':' :: '\n' :: (lines entries ++ List.replicate step ' '))) := by
  cases entries with
  | nil =>
    obtain ⟨stage', t, due', hadvances, hentry⟩ := advances_heading hname h honset hrest
    exact ⟨stage', t, due', by simpa using hadvances, hentry⟩
  | cons entry entries =>
    have hlines : ∀ after : List Char,
        (name ++ ':' :: '\n' :: (lines (entry :: entries) ++ List.replicate step ' ')) ++ after =
          (name ++ ':' :: '\n' :: List.replicate step ' ') ++
            (entry.line ++ (lines entries ++ (List.replicate step ' ' ++ after))) := by
      intro after
      rw [lines_cons]
      simp
    rw [hlines] at hrest
    obtain ⟨stage₁, t₁, due₁, hadvances, hentry⟩ := advances_heading hname h
      (Entry.onset (hentries entry List.mem_cons_self).name step _) hrest
    obtain ⟨stage', t, text, plain, hadvances', hready, hcolumn⟩ := advances_entries hentries hentry
      honset (Nat.le_refl _) (Spot.rest_pass hrest)
    have hpassed := hlines []
    rw [List.append_nil, List.append_nil] at hpassed
    rw [← Spot.pass_append, ← hpassed] at hready hcolumn
    exact ⟨stage', t, _, hadvances.trans hadvances', hcolumn, .inl ⟨text, plain, hready, rfl⟩⟩

/-- **The tokens in front of a refused value**: those of the sections and entries before it, and the
mark of its key. -/
theorem tokens_of_refused {supply : Supply} {parts : List Section} {name : List Char}
    {entries : List Entry} {entry : Entry} {after : List Char} (hsound : supply.sound = true)
    (hclear : byteOrderMark ∉ supply.chars) (hparts : ∀ part ∈ parts, part.Fits)
    (hname : IsKeyName name) (hentries : ∀ e ∈ entries, e.Fits) (hkey : IsKeyName entry.name)
    (hvalue : Refused entry.value)
    (hchars : supply.chars = parts.flatMap Section.text ++
      (name ++ ':' :: '\n' :: (lines entries ++ List.replicate step ' ') ++
        (entry.line ++ after))) :
    tokens supply = [.streamStart, .mappingStart] ++ parts.flatMap Section.tokens ++
      (openSection name ++ entries.flatMap Entry.tokens ++ [.key]) := by
  have hheading : Onset 0 ((name ++ ':' :: '\n' :: (lines entries ++ List.replicate step ' ')) ++
      (entry.line ++ after)) := by
    rw [List.append_assoc]
    exact hname.onset 0 _
  have honset : Onset 0 supply.chars := by
    rw [hchars]
    exact onset_sections hparts hheading
  obtain ⟨stage₁, t₁, due₁, hadvances₁, hline⟩ :=
    advances_sections hparts (atLine_start honset) hheading hchars
  have hrest := Spot.rest_pass (s := .start supply.chars) hchars
  obtain ⟨stage₂, t₂, due₂, hadvances₂, hentry⟩ := advances_stopped_section hname hentries hline
    (Entry.onset hkey step after) hrest
  have hrest' := Spot.rest_pass hrest
  obtain ⟨stage₃, hadvances₃, hexpects⟩ := advances_entry_name hkey hentry hrest'
  have hvalue' : entry.line ++ after =
      (entry.name ++ [':']) ++ ' ' :: (endLine (written 2 entry.value) ++ after) := by
    simp [Entry.line]
  have hlength : 2 + 2 * (parts.flatMap Section.tokens ++
      (openSection name ++ entries.flatMap Entry.tokens) ++
        [Token.key, .scalar entry.name true, .value]).length ≤ 5 * supply.chars.length + 4 := by
    have hparts := Section.length_tokens_le parts
    have hentries := Entry.length_tokens_le entries
    rw [hchars]
    simp only [openSection, List.length_append, List.length_cons, List.length_nil,
      List.length_replicate, step]
    omega
  obtain ⟨out, hout, htokens⟩ := tokens_of_advances hsound hclear
    ((hadvances₁.trans hadvances₂).trans hadvances₃)
    (fun c hc fuel => run_refused hexpects hvalue
      (Nat.le_trans (Nat.le_of_eq hentry.column.symm) (hkey.column_le _))
      (Spot.rest_pass (hrest'.trans hvalue')) (8 + fuel) hc) hlength
  have hcut : [Token.streamStart, .mappingStart] ++ (parts.flatMap Section.tokens ++
      (openSection name ++ entries.flatMap Entry.tokens) ++
        [.key, .scalar entry.name true, .value]) =
      ([.streamStart, .mappingStart] ++ parts.flatMap Section.tokens ++
        (openSection name ++ entries.flatMap Entry.tokens ++ [.key])) ++
          [.scalar entry.name true, .value] := by
    simp
  rw [htokens, List.append_nil]
  exact List.append_cancel_right (hout.trans hcut)

/-- **No document** is made of tokens that end with the mark of a key. -/
theorem document?_refused (parts : List Section) (name : List Char) (entries : List Entry) :
    document? ([.streamStart, .mappingStart] ++ parts.flatMap Section.tokens ++
      (openSection name ++ entries.flatMap Entry.tokens ++ [.key])) = none := by
  obtain ⟨fuel, number, hfuel, hread⟩ := document?_append parts
    (openSection name ++ entries.flatMap Entry.tokens ++ [.key])
  have hlength := Entry.length_le_tokens entries
  simp only [openSection, List.length_append, List.length_cons, List.length_nil] at hfuel
  obtain ⟨more, rfl⟩ : ∃ more, fuel = entries.length + (more + 1) + 2 :=
    ⟨fuel - entries.length - 3, by omega⟩
  obtain ⟨number', hentries⟩ := readFields_entries standardHandles entries more (number + 2) [.key]
  have hfields : readFields (more + 1) (reading standardHandles [.key] number') = none := rfl
  rw [hfields, Option.map_none] at hentries
  have hsection : readFields (entries.length + (more + 1) + 2)
      (reading standardHandles (openSection name ++ entries.flatMap Entry.tokens ++ [.key])
        number) =
        none := by
    rw [List.append_assoc]
    have hstart : endsBlockField .mappingStart = false := rfl
    refine (readFields_key hstart _ _ name (entries.flatMap Entry.tokens ++ [.key])).trans ?_
    rw [readNode_mapping, hentries]
    rfl
  rw [hread, hsection]
  rfl

end DocHarvest.Yaml
