import DocHarvest.Proofs.Source.Grammar

/-!
# String Literals

`Literal.cut` looks for the quotes that close a literal byte by byte. Here it is compared with
the grammar, which reads the body in pieces: the search succeeds exactly on the bodies of
well-formed literals, and it stops where the body does.

## Main results

* `Literal.cut_written` — the body of a well-formed literal is cut at its end.
* `Literal.exists_of_cut_closed` — what is cut is the body of a well-formed literal.
* `Literal.written_injective` — bytes are read as pieces in one way only.
-/

namespace DocHarvest.Source

/-- A quote is not a backslash. -/
theorem ne_backslash_of_isQuote {q : UInt8} (h : isQuote q) : q ≠ Byte.backslash := by
  rintro rfl
  exact absurd h (by decide)

/-- A quote is not a line feed. -/
theorem ne_lineFeed_of_isQuote {q : UInt8} (h : isQuote q) : q ≠ Byte.lineFeed := by
  rintro rfl
  exact absurd h (by decide)

namespace Literal

/-! ### One step of the search -/

/-- An escaped line end of two bytes is passed over as one piece. -/
theorem cut_escapedLineEnd (q : UInt8) (long : Bool) (rest : Bytes) :
    cut q long (Piece.escapedLineEnd.bytes ++ rest) =
      (cut q long rest).after Piece.escapedLineEnd.bytes := rfl

/-- An escaped byte is passed over with its backslash. -/
theorem cut_escaped {b : UInt8} {rest : Bytes} (q : UInt8) (long : Bool)
    (h : b = Byte.carriageReturn → rest.head? ≠ some Byte.lineFeed) :
    cut q long ((Piece.escaped b).bytes ++ rest) =
      (cut q long rest).after (Piece.escaped b).bytes := by
  refine cut.eq_4 q long b rest ?_
  rintro tail rfl rfl
  exact h rfl rfl

/-- A bare byte closes the literal, breaks it or is passed over. -/
theorem cut_plain {b : UInt8} (q : UInt8) (long : Bool) (rest : Bytes)
    (h : b ≠ Byte.backslash) :
    cut q long (b :: rest) =
      if (delimiter q long).isPrefixOf (b :: rest) then
        .closed (delimiter q long) ((b :: rest).drop (delimiter q long).length)
      else if b = Byte.lineFeed && !long then .broken
      else (cut q long rest).after [b] :=
  cut.eq_5 q long b rest (fun hb _ => h hb) (fun _ hb _ => h hb) (fun _ _ hb _ => h hb)

/-- A backslash is read together with what it protects, if there is anything. -/
theorem ne_backslash_of_single {b : UInt8} {tail : Bytes} (hend : b = Byte.backslash → tail ≠ [])
    (hmore : ∀ c rest, b = Byte.backslash → tail ≠ c :: rest) : b ≠ Byte.backslash := by
  intro hb
  cases tail with
  | nil => exact hend hb rfl
  | cons c rest => exact hmore c rest hb rfl

/-- A line feed that nothing protects is a byte of the body of a long literal, and breaks any
other. -/
theorem cut_lineFeed {q : UInt8} (hq : isQuote q) (long : Bool) (rest : Bytes) :
    cut q long (Byte.lineFeed :: rest) =
      if long then (cut q long rest).after [Byte.lineFeed] else .broken := by
  have hpre : ¬ (delimiter q long).isPrefixOf (Byte.lineFeed :: rest) := by
    have hne := ne_lineFeed_of_isQuote hq
    cases long <;> simp [delimiter, hne]
  rw [cut_plain q long rest (by decide), if_neg hpre]
  cases long <;> rfl

/-! ### Pieces, one by one -/

/-- No pieces are read as nothing. -/
theorem reads_nil (long : Bool) : Reads long [] :=
  ⟨by simp, by simp, by simp⟩

/-- When a bare byte is read as a piece of a literal. -/
theorem reads_plain_cons {long : Bool} {b : UInt8} {body : List Piece} :
    Reads long (.plain b :: body) ↔
      b ≠ Byte.backslash ∧ (long = false → b ≠ Byte.lineFeed) ∧ Reads long body := by
  constructor
  · rintro ⟨hu, hg, ho⟩
    simp only [List.mem_cons, not_or, Piece.plain.injEq] at hu ho
    refine ⟨fun h => hu.1 h.symm, fun hl h => (ho hl).1 h.symm, hu.2, ?_, fun hl => (ho hl).2⟩
    exact fun h => hg (List.infix_cons h)
  · rintro ⟨hb, hl, hu, hg, ho⟩
    refine ⟨?_, ?_, fun h => ?_⟩
    · simpa using ⟨fun h => hb h.symm, hu⟩
    · rw [List.infix_cons_iff]
      rintro (h | h)
      · simp at h
      · exact hg h
    · simpa using ⟨fun hb => hl h hb.symm, ho h⟩

/-- When an escaped byte is read as a piece of a literal. -/
theorem reads_escaped_cons {long : Bool} {b : UInt8} {body : List Piece} :
    Reads long (.escaped b :: body) ↔
      (b = Byte.carriageReturn → body.head? ≠ some (.plain Byte.lineFeed)) ∧
        Reads long body := by
  have hp : [.escaped Byte.carriageReturn, .plain Byte.lineFeed] <+: .escaped b :: body ↔
      b = Byte.carriageReturn ∧ body.head? = some (.plain Byte.lineFeed) := by
    cases body <;> simp [eq_comm]
  constructor
  · rintro ⟨hu, hg, ho⟩
    rw [List.infix_cons_iff, hp, not_or] at hg
    refine ⟨fun hb h => hg.1 ⟨hb, h⟩, ?_, hg.2, fun hl => ?_⟩
    · simpa using hu
    · simpa using ho hl
  · rintro ⟨hb, hu, hg, ho⟩
    refine ⟨by simpa using hu, ?_, fun hl => by simpa using ho hl⟩
    rw [List.infix_cons_iff, hp]
    rintro (⟨h, h'⟩ | h)
    · exact hb h h'
    · exact hg h

/-- An escaped line end of two bytes is always read as a piece. -/
theorem reads_escapedLineEnd_cons {long : Bool} {body : List Piece} :
    Reads long (.escapedLineEnd :: body) ↔ Reads long body := by
  constructor
  · rintro ⟨hu, hg, ho⟩
    refine ⟨by simpa using hu, fun h => hg (List.infix_cons h), fun hl => by simpa using ho hl⟩
  · rintro ⟨hu, hg, ho⟩
    refine ⟨by simpa using hu, ?_, fun hl => by simpa using ho hl⟩
    rw [List.infix_cons_iff]
    rintro (h | h)
    · simp at h
    · exact hg h

/-- An empty literal is closed where it ends. -/
theorem closesFirst_nil (q : UInt8) (long : Bool) : ClosesFirst q long [] := by
  intro h
  have hlen := h.length_le
  cases long <;> simp [closing, delimiter] at hlen

/-- A literal is not closed at its first piece, nor later before it ends. -/
theorem closesFirst_cons {q : UInt8} {long : Bool} {piece : Piece} {body : List Piece} :
    ClosesFirst q long (piece :: body) ↔
      ¬ closing q long <+: piece :: body ++ (closing q long).dropLast ∧
        ClosesFirst q long body := by
  rw [ClosesFirst, List.cons_append, List.infix_cons_iff, not_or, ← ClosesFirst]

/-! ### The search against the grammar -/

/-- A piece that starts with a line feed is a line feed. -/
theorem head?_written_eq_lineFeed {q : UInt8} (hq : isQuote q) (long : Bool)
    (body : List Piece) (rest : Bytes) :
    (written body ++ delimiter q long ++ rest).head? = some Byte.lineFeed ↔
      body.head? = some (.plain Byte.lineFeed) := by
  have hne := ne_lineFeed_of_isQuote hq
  have hbs : Byte.backslash ≠ Byte.lineFeed := by decide
  rcases body with - | ⟨piece, body⟩
  · cases long <;> simp [delimiter, hne]
  · cases piece <;> simp [Piece.bytes, hbs]

/-- The closing quotes stand before some bytes when they stand before the pieces that the
bytes are read as: a quote after a backslash is part of another piece. -/
theorem delimiter_prefix_written {q : UInt8} (hq : isQuote q) (long : Bool) (b : UInt8)
    (body : List Piece) (rest : Bytes) :
    delimiter q long <+: b :: (written body ++ delimiter q long ++ rest) ↔
      closing q long <+: .plain b :: body ++ (closing q long).dropLast := by
  have hne := ne_backslash_of_isQuote hq
  cases long with
  | false => simp [closing, delimiter]
  | true =>
    rcases body with - | ⟨piece, body⟩
    · simp [closing, delimiter]
    rcases piece with c | c | -
    · rcases body with - | ⟨piece, body⟩
      · simp [closing, delimiter, Piece.bytes]
      · cases piece <;> simp [closing, delimiter, Piece.bytes, hne]
    · simp [closing, delimiter, Piece.bytes, hne]
    · simp [closing, delimiter, Piece.bytes, hne]

/-- **Completeness of the search.** The body of a well-formed literal is cut at its end. -/
theorem cut_written {q : UInt8} {long : Bool} {body : List Piece} (hq : isQuote q)
    (hr : Reads long body) (hc : ClosesFirst q long body) (rest : Bytes) :
    cut q long (written body ++ delimiter q long ++ rest) =
      .closed (written body ++ delimiter q long) rest := by
  induction body with
  | nil =>
    obtain ⟨tail, htail⟩ : ∃ tail, delimiter q long = q :: tail := by
      cases long <;> exact ⟨_, rfl⟩
    have hpre : (delimiter q long).isPrefixOf (q :: (tail ++ rest)) := by
      rw [List.isPrefixOf_iff_prefix, ← List.cons_append, ← htail]
      exact List.prefix_append _ _
    have hdrop : (q :: (tail ++ rest)).drop (delimiter q long).length = rest := by
      rw [← List.cons_append, ← htail, List.drop_left]
    rw [written_nil, List.nil_append, htail, List.cons_append,
      cut_plain q long _ (ne_backslash_of_isQuote hq), if_pos hpre, hdrop, htail]
  | cons piece body ih =>
    cases piece with
    | plain b =>
      obtain ⟨hb, hl, hr⟩ := reads_plain_cons.mp hr
      obtain ⟨hpre, hc⟩ := closesFirst_cons.mp hc
      rw [← delimiter_prefix_written hq long b body rest, ← List.isPrefixOf_iff_prefix] at hpre
      have hline : ¬ (decide (b = Byte.lineFeed) && !long) := by
        cases long <;> simp_all
      have hcut := cut_plain q long (written body ++ delimiter q long ++ rest) hb
      rw [if_neg hpre, if_neg hline, ih hr hc] at hcut
      exact hcut
    | escaped b =>
      obtain ⟨hb, hr⟩ := reads_escaped_cons.mp hr
      rw [written_cons, List.append_assoc, List.append_assoc, ← List.append_assoc (written body),
        cut_escaped, ih hr (closesFirst_cons.mp hc).2]
      · simp [Cut.after]
      · intro h
        rw [Ne, head?_written_eq_lineFeed hq]
        exact hb h
    | escapedLineEnd =>
      rw [written_cons, List.append_assoc, List.append_assoc, ← List.append_assoc (written body),
        cut_escapedLineEnd, ih (reads_escapedLineEnd_cons.mp hr) (closesFirst_cons.mp hc).2]
      simp [Cut.after]

/-- Bytes put in front of a cut are in front of its body. -/
theorem Cut.after_eq_closed {unit text rest : Bytes} {c : Cut}
    (h : c.after unit = .closed text rest) :
    ∃ body, c = .closed body rest ∧ text = unit ++ body := by
  cases c with
  | closed body after =>
    simp only [Cut.after, Cut.closed.injEq] at h
    obtain ⟨rfl, rfl⟩ := h
    exact ⟨body, rfl, rfl⟩
  | broken => simp [Cut.after] at h
  | exhausted => simp [Cut.after] at h

/-- **Soundness of the search.** What is cut is the body of a well-formed literal and the
quotes that close it first. -/
theorem exists_of_cut_closed {q : UInt8} {long : Bool} {s text rest : Bytes} (hq : isQuote q)
    (h : cut q long s = .closed text rest) :
    ∃ body, Reads long body ∧ ClosesFirst q long body ∧
      text = written body ++ delimiter q long ∧ s = text ++ rest := by
  fun_induction cut q long s generalizing text with
  | case1 => simp at h
  | case2 => simp at h
  | case3 tail ih =>
    obtain ⟨inner, hcut, rfl⟩ := Cut.after_eq_closed h
    obtain ⟨body, hr, hc, rfl, rfl⟩ := ih hcut
    refine ⟨.escapedLineEnd :: body, reads_escapedLineEnd_cons.mpr hr,
      closesFirst_cons.mpr ⟨?_, hc⟩, by simp [Piece.bytes], by simp⟩
    cases long <;> simp [closing, delimiter]
  | case4 b tail hb ih =>
    obtain ⟨inner, hcut, rfl⟩ := Cut.after_eq_closed h
    obtain ⟨body, hr, hc, rfl, rfl⟩ := ih hcut
    refine ⟨.escaped b :: body, reads_escaped_cons.mpr ⟨fun hb' hhead => ?_, hr⟩,
      closesFirst_cons.mpr ⟨?_, hc⟩, by simp [Piece.bytes], by simp⟩
    · obtain ⟨more, rfl⟩ : ∃ more, body = .plain Byte.lineFeed :: more := by
        cases body <;> simp_all
      exact hb (written more ++ delimiter q long ++ rest) hb' (by simp [Piece.bytes])
    · cases long <;> simp [closing, delimiter]
  | case5 b tail h1 h2 h3 hpre =>
    rw [List.isPrefixOf_iff_prefix] at hpre
    obtain ⟨more, hmore⟩ := hpre
    rw [← hmore, List.drop_left, Cut.closed.injEq] at h
    obtain ⟨rfl, rfl⟩ := h
    exact ⟨[], reads_nil long, closesFirst_nil q long, rfl, hmore.symm⟩
  | case6 => simp at h
  | case7 b tail h1 h2 h3 hpre hline ih =>
    obtain ⟨inner, hcut, rfl⟩ := Cut.after_eq_closed h
    obtain ⟨body, hr, hc, rfl, rfl⟩ := ih hcut
    have hb : b ≠ Byte.backslash := ne_backslash_of_single h1 h3
    have hlf : long = false → b ≠ Byte.lineFeed := by
      rintro rfl rfl
      simp at hline
    rw [List.isPrefixOf_iff_prefix, delimiter_prefix_written hq] at hpre
    exact ⟨.plain b :: body, reads_plain_cons.mpr ⟨hb, hlf, hr⟩,
      closesFirst_cons.mpr ⟨hpre, hc⟩, by simp [Piece.bytes], by simp⟩

/-- A literal that is broken further on is broken. -/
theorem Cut.after_eq_broken {unit : Bytes} {c : Cut} (h : c.after unit = .broken) :
    c = .broken := by
  cases c <;> simp [Cut.after] at h ⊢

/-- Only a literal of one line is broken by the end of a line. -/
theorem long_eq_false_of_cut_broken {q : UInt8} {long : Bool} {s : Bytes}
    (h : cut q long s = .broken) : long = false := by
  fun_induction cut q long s with
  | case1 => simp at h
  | case2 => simp at h
  | case3 tail ih => exact ih (Cut.after_eq_broken h)
  | case4 b tail hb ih => exact ih (Cut.after_eq_broken h)
  | case5 => simp at h
  | case6 b tail h1 h2 h3 hpre hline => simpa using (Bool.and_eq_true_iff.mp hline).2
  | case7 b tail h1 h2 h3 hpre hline ih => exact ih (Cut.after_eq_broken h)

/-- A backslash and a carriage return are not the start of a longer piece when the pieces
after them are read as such. -/
theorem not_escaped_of_escapedLineEnd {long : Bool} {b : UInt8} {body body' : List Piece}
    (h : Reads long (.escaped b :: body)) :
    written (.escaped b :: body) ≠ written (.escapedLineEnd :: body') := by
  intro heq
  simp only [written_cons, Piece.bytes, List.cons_append, List.nil_append, List.cons.injEq,
    true_and] at heq
  obtain ⟨hb, htail⟩ := heq
  refine (reads_escaped_cons.mp h).1 hb ?_
  rcases body with - | ⟨piece, body⟩
  · simp at htail
  · have hbs : Byte.backslash ≠ Byte.lineFeed := by decide
    cases piece <;> simp_all [Piece.bytes]

/-- Bytes are read as pieces in one way only. -/
theorem written_injective {long : Bool} {body body' : List Piece} (h : Reads long body)
    (h' : Reads long body') (heq : written body = written body') : body = body' := by
  induction body generalizing body' with
  | nil =>
    rcases body' with - | ⟨piece, body'⟩
    · rfl
    · cases piece <;> simp [Piece.bytes] at heq
  | cons piece body ih =>
    rcases body' with - | ⟨piece', body'⟩
    · cases piece <;> simp [Piece.bytes] at heq
    cases piece with
    | plain b =>
      obtain ⟨hb, -, h⟩ := reads_plain_cons.mp h
      cases piece' with
      | plain b' =>
        obtain ⟨-, -, h'⟩ := reads_plain_cons.mp h'
        simp only [written_cons, Piece.bytes, List.cons_append, List.nil_append,
          List.cons.injEq] at heq
        rw [heq.1, ih h h' heq.2]
      | escaped b' => exact absurd (List.cons.inj heq).1 hb
      | escapedLineEnd => exact absurd (List.cons.inj heq).1 hb
    | escaped b =>
      cases piece' with
      | plain b' => exact absurd (List.cons.inj heq).1.symm (reads_plain_cons.mp h').1
      | escaped b' =>
        obtain ⟨-, h⟩ := reads_escaped_cons.mp h
        obtain ⟨-, h'⟩ := reads_escaped_cons.mp h'
        simp only [written_cons, Piece.bytes, List.cons_append, List.nil_append,
          List.cons.injEq, true_and] at heq
        rw [heq.1, ih h h' heq.2]
      | escapedLineEnd => exact absurd heq (not_escaped_of_escapedLineEnd h)
    | escapedLineEnd =>
      cases piece' with
      | plain b' => exact absurd (List.cons.inj heq).1.symm (reads_plain_cons.mp h').1
      | escaped b' => exact absurd heq.symm (not_escaped_of_escapedLineEnd h')
      | escapedLineEnd =>
        rw [reads_escapedLineEnd_cons] at h h'
        rw [written_cons, written_cons, List.append_cancel_left_eq] at heq
        rw [ih h h' heq]

end Literal

end DocHarvest.Source
