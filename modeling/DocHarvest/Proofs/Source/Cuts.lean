import DocHarvest.Proofs.Source.Elements

/-!
# Runs of Elements

A source is a run of elements. Here are the laws of such runs: they can be joined, the tokens
among them can be counted piece by piece, and a text is cut into elements in one way only. What
`skipBlanks` passes over between two tokens is a run of blanks and comments.

## Main results

* `Splits.unique` — a text splits into elements in one way only.
* `Unclosed.not_fits` — no element stands where a literal starts that nothing closes.
* `Cuts.eq_of_unclosed` — the elements before such a literal are determined.
* `exists_gap_skipBlanks` — what is passed over between tokens is blanks and comments.
-/

namespace DocHarvest.Source

/-! ### Runs of elements -/

/-- No elements spell nothing. -/
@[simp] theorem spelled_nil : spelled [] = [] := rfl

/-- The first element comes first. -/
@[simp] theorem spelled_cons (e : Element) (es : List Element) :
    spelled (e :: es) = e.text ++ spelled es := rfl

/-- Elements are spelled one after another. -/
@[simp] theorem spelled_append (es es' : List Element) :
    spelled (es ++ es') = spelled es ++ spelled es' := by
  simp [spelled]

/-- Elements that follow others start as many lines further down as these have line feeds. -/
theorem placed_append (line : Nat) (es es' : List Element) :
    placed line (es ++ es') =
      placed line es ++ placed (line + Bytes.lineFeeds (spelled es)) es' := by
  induction es generalizing line with
  | nil => simp [placed]
  | cons e es ih =>
    rw [List.cons_append, placed, placed, spelled_cons, Bytes.lineFeeds_append, ih,
      Nat.add_assoc]
    cases e.kind? <;> rfl

/-- Blanks and comments hold no token. -/
theorem placed_eq_nil {es : List Element} (h : ∀ e ∈ es, e.kind? = none) (line : Nat) :
    placed line es = [] := by
  induction es generalizing line with
  | nil => rfl
  | cons e es ih =>
    rw [List.forall_mem_cons] at h
    simp only [placed, h.1]
    exact ih h.2 _

/-- Every token among elements is one of them, on the line that the elements before it lead
to. -/
theorem exists_of_placed_eq {line : Nat} {es : List Element} {before after : List Token}
    {token : Token} (h : placed line es = before ++ token :: after) :
    ∃ es₁ e es₂, es = es₁ ++ e :: es₂ ∧ placed line es₁ = before ∧
      e.kind? = some token.kind ∧ e.text = token.text ∧
      token.line = line + Bytes.lineFeeds (spelled es₁) := by
  induction es generalizing line before with
  | nil => simp [placed] at h
  | cons e es ih =>
    cases hkind : e.kind? with
    | none =>
      simp only [placed, hkind] at h
      obtain ⟨es₁, e', es₂, rfl, hbefore, hkind', htext, hline⟩ := ih h
      refine ⟨e :: es₁, e', es₂, rfl, ?_, hkind', htext, ?_⟩
      · simpa [placed, hkind] using hbefore
      · rw [hline, spelled_cons, Bytes.lineFeeds_append, Nat.add_assoc]
    | some kind =>
      simp only [placed, hkind] at h
      rcases before with - | ⟨first, before⟩
      · obtain ⟨rfl, -⟩ := List.cons.inj h
        exact ⟨[], e, es, rfl, rfl, hkind, rfl, rfl⟩
      · obtain ⟨rfl, htail⟩ := List.cons.inj h
        obtain ⟨es₁, e', es₂, rfl, hbefore, hkind', htext, hline⟩ := ih htail
        refine ⟨e :: es₁, e', es₂, rfl, ?_, hkind', htext, ?_⟩
        · simp [placed, hkind, hbefore]
        · rw [hline, spelled_cons, Bytes.lineFeeds_append, Nat.add_assoc]

namespace Cuts

/-- A text that is cut is the elements' bytes and the rest. -/
theorem eq_append {s rest : Bytes} {es : List Element} (h : Cuts s es rest) :
    s = spelled es ++ rest := by
  induction h with
  | stop => rfl
  | step _ _ ih => rw [ih, spelled_cons, List.append_assoc]

/-- Bytes that were cut are cut further. -/
theorem append {s mid rest : Bytes} {es es' : List Element} (h : Cuts s es mid)
    (h' : Cuts mid es' rest) : Cuts s (es ++ es') rest := by
  induction h with
  | stop => exact h'
  | step hfits _ ih => exact .step hfits (ih h')

/-- An element that fits what follows is cut off. -/
theorem single {e : Element} {rest : Bytes} (h : e.Fits rest) : Cuts (e.text ++ rest) [e] rest :=
  .step h (.stop rest)

/-- Nothing is cut off as no elements. -/
theorem nil_iff {s rest : Bytes} : Cuts s [] rest ↔ s = rest := by
  constructor
  · rintro ⟨⟩
    rfl
  · rintro rfl
    exact .stop s

/-- The first element is cut off first. -/
theorem cons_iff {s rest : Bytes} {e : Element} {es : List Element} :
    Cuts s (e :: es) rest ↔ ∃ more, s = e.text ++ more ∧ e.Fits more ∧ Cuts more es rest := by
  constructor
  · intro h
    generalize hes : e :: es = all at h
    cases h with
    | stop => simp at hes
    | step hfits h =>
      obtain ⟨rfl, rfl⟩ := List.cons.inj hes
      exact ⟨_, rfl, hfits, h⟩
  · rintro ⟨more, rfl, hfits, h⟩
    exact .step hfits h

/-- Some elements are cut off first and then the others. -/
theorem append_iff {s rest : Bytes} {es es' : List Element} :
    Cuts s (es ++ es') rest ↔ ∃ mid, Cuts s es mid ∧ Cuts mid es' rest := by
  constructor
  · intro h
    induction es generalizing s with
    | nil => exact ⟨s, .stop s, h⟩
    | cons e es ih =>
      obtain ⟨more, rfl, hfits, h⟩ := cons_iff.mp h
      obtain ⟨mid, hmid, hrest⟩ := ih h
      exact ⟨mid, .step hfits hmid, hrest⟩
  · rintro ⟨mid, h, h'⟩
    exact h.append h'

end Cuts

/-- A text that splits into elements splits at every rest that it is cut to. -/
theorem Cuts.splits_rest {s rest : Bytes} {es es' : List Element} (h : Cuts s es rest)
    (h' : Splits s es') : ∃ more, es' = es ++ more ∧ Splits rest more := by
  unfold Splits at h'
  induction h generalizing es' with
  | stop => exact ⟨es', rfl, h'⟩
  | @step e tail es rest hfits _ ih =>
    cases es' with
    | nil =>
      have hs := Cuts.nil_iff.mp h'
      exact absurd (List.append_eq_nil_iff.mp hs).1 (Element.text_ne_nil hfits)
    | cons e' es' =>
      obtain ⟨tail', hs, hfits', h'⟩ := Cuts.cons_iff.mp h'
      obtain ⟨rfl, rfl⟩ := Element.fits_unique hfits hfits' hs
      obtain ⟨more, rfl, hrest⟩ := ih h'
      exact ⟨more, rfl, hrest⟩

/-- **A text splits into elements in one way only.** -/
theorem Splits.unique {s : Bytes} {es es' : List Element} (h : Splits s es)
    (h' : Splits s es') : es = es' := by
  obtain ⟨more, rfl, hmore⟩ := Cuts.splits_rest h h'
  cases more with
  | nil => simp
  | cons e more =>
    obtain ⟨tail, hs, hfits, -⟩ := Cuts.cons_iff.mp hmore
    exact absurd (List.append_eq_nil_iff.mp hs.symm).1 (Element.text_ne_nil hfits)

/-- A literal whose end is not found is not closed. -/
theorem unclosed_of_cut {mark : Bytes} {q : UInt8} {long : Bool} {after : Bytes}
    (h : Literal.Opens mark q long after)
    (hcut : ∀ body rest, Literal.cut q long after ≠ .closed body rest) :
    Unclosed (mark ++ Literal.delimiter q long ++ after) (if long then .openText else .openLine) :=
  ⟨mark, q, long, after, h, rfl,
    fun _ more hr hc heq => hcut _ more (heq ▸ Literal.cut_written h.isQuote hr hc more), rfl⟩

/-- Where a literal starts that nothing closes, there is something left to read. -/
theorem Unclosed.ne_nil {s : Bytes} {what : Malformation} (h : Unclosed s what) : s ≠ [] := by
  obtain ⟨mark, q, long, after, -, rfl, -, -⟩ := h
  cases long <;> simp [Literal.delimiter]

/-- No element stands where a literal starts that nothing closes. -/
theorem Unclosed.not_fits {s more : Bytes} {what : Malformation} {e : Element}
    (h : Unclosed s what) (hfits : e.Fits more) : s ≠ e.text ++ more := by
  rintro heq
  obtain ⟨mark, q, long, after, hopens, rfl, hclose, -⟩ := h
  obtain ⟨rest, hrest⟩ : ∃ rest, q :: rest = Literal.delimiter q long ++ after := by
    cases long <;> exact ⟨_, rfl⟩
  rw [List.append_assoc, ← hrest] at heq
  obtain ⟨b, tail, hcons⟩ : ∃ b tail, mark ++ q :: rest = b :: tail :=
    List.exists_cons_of_ne_nil (by simp)
  have hfirst := Lexeme.first_eq_literal hopens.isMark hopens.isQuote hcons.symm
  rw [Lexeme.literal_eq hopens hrest] at hfirst
  cases hk : e.kind? with
  | none =>
    have hb := (Element.kind?_eq_none_iff hfits (hcons.symm.trans heq)).mp hk
    exact hopens.head_not_blank hcons.symm hb
  | some kind =>
    rw [Element.first_eq_of_fits hfits hk (hcons.symm.trans heq)] at hfirst
    cases hcut : Literal.cut q long after with
    | closed text more' =>
      obtain ⟨body, hreads, hcloses, rfl, rfl⟩ := Literal.exists_of_cut_closed hopens.isQuote hcut
      exact hclose body more' hreads hcloses rfl
    | broken => simp [hcut] at hfirst
    | exhausted => simp [hcut] at hfirst

/-- What a literal that nothing closes makes of the source is one thing only. -/
theorem Unclosed.unique {s : Bytes} {what what' : Malformation} (h : Unclosed s what)
    (h' : Unclosed s what') : what = what' := by
  obtain ⟨mark, q, long, after, hopens, rfl, -, rfl⟩ := h
  obtain ⟨mark', q', long', after', hopens', heq, -, rfl⟩ := h'
  obtain ⟨-, -, rfl, -⟩ := hopens.unique hopens' heq
  rfl

/-- A text is cut up to a literal that nothing closes in one way only. -/
theorem Cuts.eq_of_unclosed {s rest rest' : Bytes} {es es' : List Element}
    {what what' : Malformation} (h : Cuts s es rest) (hopen : Unclosed rest what)
    (h' : Cuts s es' rest') (hopen' : Unclosed rest' what') : es = es' ∧ rest = rest' := by
  induction h generalizing es' with
  | stop =>
    cases es' with
    | nil => exact ⟨rfl, Cuts.nil_iff.mp h'⟩
    | cons e' es' =>
      obtain ⟨more, heq, hfits, -⟩ := Cuts.cons_iff.mp h'
      exact absurd heq (hopen.not_fits hfits)
  | step hfits _ ih =>
    cases es' with
    | nil =>
      have heq := Cuts.nil_iff.mp h'
      exact absurd heq.symm (hopen'.not_fits hfits)
    | cons e' es' =>
      obtain ⟨more, heq, hfits', h'⟩ := Cuts.cons_iff.mp h'
      obtain ⟨rfl, rfl⟩ := Element.fits_unique hfits hfits' heq
      obtain ⟨rfl, rfl⟩ := ih hopen h'
      exact ⟨rfl, rfl⟩

/-! ### Between tokens -/

/-- A comment is passed over up to the end of its line. -/
theorem skipBlanks_true (line : Nat) (s : Bytes) :
    skipBlanks true line s = skipBlanks false line (s.dropWhile (· ≠ Byte.lineFeed)) := by
  induction s with
  | nil => simp [skipBlanks]
  | cons b rest ih =>
    by_cases hb : b = Byte.lineFeed
    · simp [skipBlanks, hb]
    · simp [skipBlanks, hb, ih]

/-- The elements between two tokens: blanks and comments from a line and a text up to another
line and the rest of the text, which a token begins, or which is empty. -/
structure Gap (line : Nat) (s : Bytes) (gap : List Element) (line' : Nat) (rest : Bytes) :
    Prop where
  cuts : Cuts s gap rest
  blank : ∀ e ∈ gap, e.kind? = none
  counted : line' = line + Bytes.lineFeeds (spelled gap)
  stops : ∀ b ∈ rest.head?, ¬ isBlank b ∧ b ≠ Byte.hash

/-- A gap goes on with an element that is no token. -/
theorem Gap.cons {line line' : Nat} {more rest : Bytes} {e : Element} {gap : List Element}
    (hfits : e.Fits more) (hkind : e.kind? = none)
    (h : Gap (line + Bytes.lineFeeds e.text) more gap line' rest) :
    Gap line (e.text ++ more) (e :: gap) line' rest where
  cuts := .step hfits h.cuts
  blank := List.forall_mem_cons.mpr ⟨hkind, h.blank⟩
  counted := by rw [h.counted, spelled_cons, Bytes.lineFeeds_append, Nat.add_assoc]
  stops := h.stops

/-- One step over what stands between tokens. -/
theorem skipBlanks_cases (line : Nat) (s : Bytes) :
    (∃ e more, e.Fits more ∧ e.kind? = none ∧ s = Element.text e ++ more ∧
      skipBlanks false line s = skipBlanks false (line + Bytes.lineFeeds e.text) more) ∨
    skipBlanks false line s = (line, s) ∧ ∀ b ∈ s.head?, ¬ isBlank b ∧ b ≠ Byte.hash := by
  rcases s with - | ⟨b, tail⟩
  · exact .inr ⟨rfl, by simp⟩
  by_cases hhash : b = Byte.hash
  · subst hhash
    have hbody : Byte.lineFeed ∉ tail.takeWhile (· ≠ Byte.lineFeed) := fun hmem => by
      simpa using List.all_eq_true.mp List.all_takeWhile _ hmem
    refine .inl ⟨.comment (tail.takeWhile (· ≠ Byte.lineFeed)),
      tail.dropWhile (· ≠ Byte.lineFeed), ⟨hbody, fun b hb => ?_⟩, rfl, ?_, ?_⟩
    · have hnot := List.head?_dropWhile_not (· ≠ Byte.lineFeed) tail
      rw [Option.mem_def.mp hb] at hnot
      simpa using hnot
    · simp [Element.text]
    · have hne : Byte.lineFeed ≠ Byte.hash := by decide
      have hcount : Bytes.lineFeeds (Byte.hash :: tail.takeWhile (· ≠ Byte.lineFeed)) = 0 :=
        List.count_eq_zero_of_not_mem (List.not_mem_cons_of_ne_of_not_mem hne hbody)
      rw [Element.text, hcount, Nat.add_zero, ← skipBlanks_true]
      simp [skipBlanks, hne.symm]
  by_cases hblank : isBlank b
  · refine .inl ⟨.blank b, tail, hblank, rfl, rfl, ?_⟩
    by_cases hlf : b = Byte.lineFeed
    · simp [skipBlanks, hlf, Element.text, Bytes.lineFeeds]
    · simp [skipBlanks, hlf, hhash, hblank, Element.text, Bytes.lineFeeds]
  · have hlf : b ≠ Byte.lineFeed := fun h => hblank (by simp [h, isBlank])
    exact .inr ⟨by simp [skipBlanks, hlf, hhash, hblank], by simp [hhash, hblank]⟩

/-- **What is passed over between tokens is blanks and comments**, up to a token or the end, and
every line feed in it is counted. The induction is on the length, since a comment is passed over in
one step. -/
theorem exists_gap_skipBlanks (line : Nat) (s : Bytes) :
    ∃ gap, Gap line s gap (skipBlanks false line s).1 (skipBlanks false line s).2 := by
  induction hn : s.length using Nat.strongRecOn generalizing s line with
  | ind n ih =>
    subst hn
    rcases skipBlanks_cases line s with ⟨e, more, hfits, hkind, rfl, hskip⟩ | ⟨hskip, hstop⟩
    · have hlt : more.length < (e.text ++ more).length := by
        have := List.length_pos_iff.mpr (Element.text_ne_nil hfits)
        rw [List.length_append]
        omega
      obtain ⟨gap, hgap⟩ := ih _ hlt (line + Bytes.lineFeeds e.text) more rfl
      rw [hskip]
      exact ⟨e :: gap, hgap.cons hfits hkind⟩
    · rw [hskip]
      exact ⟨[], .stop s, by simp, by simp, hstop⟩

end DocHarvest.Source
