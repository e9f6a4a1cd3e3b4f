import DocHarvest.Proofs.Source.Scans

/-!
# What Scanning Recognises

Scanning a source to its end decides whether the source splits into elements, and hands out the
tokens among them. There are three ways in which it can end: the source splits and closes its
brackets, it splits and leaves brackets open, or it does not split, and then a literal that
nothing closes is where scanning stops.

## Main results

* `scan_eq_of_splits`, `scan_eq_of_halts` — scanning a source that splits, or that is cut up to
  where a scan halts.
* `scan_recognises_splits` — the split is unique, and it decides how scanning ends.
-/

namespace DocHarvest.Source

/-- A source does not split when it is cut up to a literal that nothing closes. -/
theorem Unclosed.not_splits {s rest : Bytes} {es es' : List Element} {what : Malformation}
    (h : Unclosed rest what) (hcuts : Cuts s es rest) : ¬ Splits s es' := by
  intro hsplits
  obtain ⟨more, -, hrest⟩ := hcuts.splits_rest hsplits
  cases more with
  | nil => exact h.ne_nil (Cuts.nil_iff.mp hrest)
  | cons e more =>
    obtain ⟨tail, heq, hfits, -⟩ := Cuts.cons_iff.mp hrest
    exact h.not_fits hfits heq

/-- How a scan of a complete source halts. -/
theorem Halts.complete_cases {depth line : Nat} {rest : Bytes} {outcome : Except ScanError Token}
    (h : Halts .complete depth line rest outcome) :
    rest = [] ∧ depth = 0 ∧ outcome = .ok ⟨.endOfFile, [], line⟩ ∨
    rest = [] ∧ 0 < depth ∧ outcome = .error (.malformed .openBracket line) ∨
    ∃ what, Unclosed rest what ∧ outcome = .error (.malformed what line) := by
  cases h with
  | finished _ hdepth hrest => exact .inl ⟨hrest, hdepth, rfl⟩
  | openBracket _ hdepth hrest => exact .inr (.inl ⟨hrest, hdepth, rfl⟩)
  | unreadable hending => simp at hending
  | lostWord hending => simp at hending
  | broken hopens hrest hcut =>
    refine .inr (.inr ⟨_, hrest ▸ unclosed_of_cut hopens ?_, rfl⟩)
    simp [hcut]
  | interrupted hopens hrest hcut =>
    refine .inr (.inr ⟨_, hrest ▸ unclosed_of_cut hopens ?_, rfl⟩)
    simp [hcut]

/-- How scanning a source that splits ends: at the end of the file, or in an open bracket. -/
def closingResult (s : Bytes) (es : List Element) : Except ScanError Token :=
  if nesting es = 0 then .ok ⟨.endOfFile, [], 1 + Bytes.lineFeeds s⟩
  else .error (.malformed .openBracket (1 + Bytes.lineFeeds s))

/-- **The two ways in which scanning ends**: the source splits, or a literal starts in it that
nothing closes. -/
theorem scan_cases (name s : Bytes) :
    (∃ es, Splits s es ∧ scan ⟨name, s, .complete⟩ = (placed 1 es, closingResult s es)) ∨
    (∃ es rest what, Cuts s es rest ∧ Unclosed rest what ∧
      scan ⟨name, s, .complete⟩ =
        (placed 1 es, .error (.malformed what (1 + Bytes.lineFeeds (spelled es))))) := by
  obtain ⟨es, rest, outcome, hcuts, hscan, hhalts⟩ := scan_halts ⟨name, s, .complete⟩
  have hall : rest = [] → spelled es = s ∧ Splits s es := by
    rintro rfl
    exact ⟨by simpa using hcuts.eq_append.symm, hcuts⟩
  rcases hhalts.complete_cases with ⟨hrest, hdepth, rfl⟩ | ⟨hrest, hdepth, rfl⟩ | ⟨what, h, rfl⟩
  · obtain ⟨hspelled, hsplits⟩ := hall hrest
    rw [hspelled] at hscan
    exact .inl ⟨es, hsplits, hscan.trans (by rw [closingResult, if_pos hdepth])⟩
  · obtain ⟨hspelled, hsplits⟩ := hall hrest
    rw [hspelled] at hscan
    have hne : nesting es ≠ 0 := Nat.pos_iff_ne_zero.mp hdepth
    exact .inl ⟨es, hsplits, hscan.trans (by rw [closingResult, if_neg hne])⟩
  · exact .inr ⟨es, rest, what, hcuts, h, hscan⟩

/-- Scanning a source that splits hands out its tokens. -/
theorem scan_eq_of_splits (name : Bytes) {s : Bytes} {es : List Element} (h : Splits s es) :
    scan ⟨name, s, .complete⟩ = (placed 1 es, closingResult s es) := by
  rcases scan_cases name s with ⟨es', h', hscan⟩ | ⟨_, _, _, hcuts, hopen, -⟩
  · obtain rfl := h.unique h'
    exact hscan
  · exact absurd h (hopen.not_splits hcuts)

/-- Scanning a complete source hands out the tokens before the place where a scan halts. -/
theorem scan_eq_of_halts (name : Bytes) {s rest : Bytes} {es : List Element}
    {outcome : Except ScanError Token} (hcuts : Cuts s es rest)
    (h : Halts .complete (nesting es) (1 + Bytes.lineFeeds (spelled es)) rest outcome) :
    scan ⟨name, s, .complete⟩ = (placed 1 es, outcome) := by
  have hall : rest = [] → spelled es = s ∧ Splits s es := by
    rintro rfl
    exact ⟨by simpa using hcuts.eq_append.symm, hcuts⟩
  rcases h.complete_cases with ⟨hrest, hdepth, rfl⟩ | ⟨hrest, hdepth, rfl⟩ | ⟨what, hopen, rfl⟩
  · obtain ⟨hspelled, hsplits⟩ := hall hrest
    rw [scan_eq_of_splits name hsplits, closingResult, if_pos hdepth, hspelled]
  · obtain ⟨hspelled, hsplits⟩ := hall hrest
    rw [scan_eq_of_splits name hsplits, closingResult, if_neg (Nat.pos_iff_ne_zero.mp hdepth),
      hspelled]
  · rcases scan_cases name s with ⟨es', hsplits, -⟩ | ⟨es', rest', what', hcuts', hopen', hscan⟩
    · exact absurd hsplits (hopen.not_splits hcuts)
    · obtain ⟨rfl, rfl⟩ := hcuts.eq_of_unclosed hopen hcuts' hopen'
      rw [hscan, hopen.unique hopen']

/-- **Scanning recognises the grammar exactly.** A source splits into elements in at most one
way. Scanning it reaches the end of the file exactly when it splits and leaves no bracket open,
and hands out the tokens among the elements, each on the line where it starts. When it splits
and leaves brackets open, the tokens are the same, and the error is at the end. When it does not
split, the tokens are those before a literal that nothing closes, and the error is there. -/
theorem scan_recognises_splits (name s : Bytes) :
    (∀ es es', Splits s es → Splits s es' → es = es') ∧
    (∀ tokens last, scan ⟨name, s, .complete⟩ = (tokens, .ok last) ↔
      ∃ es, Splits s es ∧ nesting es = 0 ∧ tokens = placed 1 es ∧
        last = ⟨.endOfFile, [], 1 + Bytes.lineFeeds s⟩) ∧
    (∀ es, Splits s es → 0 < nesting es →
      scan ⟨name, s, .complete⟩ =
        (placed 1 es, .error (.malformed .openBracket (1 + Bytes.lineFeeds s)))) ∧
    ((¬ ∃ es, Splits s es) → ∃ es rest what, Cuts s es rest ∧ Unclosed rest what ∧
      scan ⟨name, s, .complete⟩ =
        (placed 1 es, .error (.malformed what (1 + Bytes.lineFeeds (spelled es))))) := by
  refine ⟨fun _ _ => Splits.unique, fun tokens last => ⟨fun h => ?_, ?_⟩, fun es hs hd => ?_,
    fun hnone => ?_⟩
  · rcases scan_cases name s with ⟨es, hs, hscan⟩ | ⟨_, _, _, _, _, hscan⟩
    · rw [hscan, closingResult, Prod.mk.injEq] at h
      obtain ⟨rfl, hlast⟩ := h
      split at hlast
      · next hd => exact ⟨es, hs, hd, rfl, (Except.ok.inj hlast).symm⟩
      · simp at hlast
    · rw [hscan] at h
      simp at h
  · rintro ⟨es, hs, hd, rfl, rfl⟩
    rw [scan_eq_of_splits name hs, closingResult, if_pos hd]
  · rw [scan_eq_of_splits name hs, closingResult, if_neg (Nat.pos_iff_ne_zero.mp hd)]
  · rcases scan_cases name s with ⟨es, hs, -⟩ | hopen
    · exact absurd ⟨es, hs⟩ hnone
    · exact hopen

/-- A call with a literal that holds a protected quote, and a comment with a bracket in it. -/
theorem scan_recognises_splits_call :
    ∃ es, Splits (utf8 "f(rb'\\'', 10)\n# (\n") es ∧ nesting es = 0 ∧
      placed 1 es = [⟨.name, utf8 "f", 1⟩, ⟨.op, utf8 "(", 1⟩, ⟨.string, utf8 "rb'\\''", 1⟩,
        ⟨.op, utf8 ",", 1⟩, ⟨.number, utf8 "10", 1⟩, ⟨.op, utf8 ")", 1⟩] := by
  obtain ⟨es, hs, hd, ht, -⟩ :=
    ((scan_recognises_splits (utf8 "a.py") (utf8 "f(rb'\\'', 10)\n# (\n")).2.1 _ _).mp rfl
  exact ⟨es, hs, hd, ht.symm⟩

end DocHarvest.Source
