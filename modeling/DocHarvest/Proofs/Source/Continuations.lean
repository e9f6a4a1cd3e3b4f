import DocHarvest.Proofs.Source.Lines

/-!
# Continued Lines

A documentation text is what stands between the quotes of its literal with continued lines
joined. Read in the literal's own pieces, a continued line is a line feed that a backslash
protects. `joinLines` does not read pieces: it drops every backslash that a line feed follows, so
it also drops the second half of a protected backslash at the end of a line, and joins a line
that does not go on.

## Main definitions

* `Literal.joined` — a body without the line feeds that are protected.
* `Literal.collapsed` — a body as `joinLines` leaves it.

## Main results

* `joinLines_written` — what `joinLines` makes of a body.
* `Literal.collapsed_eq_joined_iff` — when the two agree.
* `docText_eq_joined_iff` — exactly when a documentation text joins the lines that go on.
-/

namespace DocHarvest.Source

namespace Literal

/-- A body without the line feeds that a backslash protects. -/
def joined (body : List Piece) : Bytes :=
  written (body.filter (· ≠ .escaped Byte.lineFeed))

/-- A body without the line feeds that a backslash protects, and without the line feeds after a
protected backslash, which is left alone. -/
def collapsed : List Piece → Bytes
  | [] => []
  | [piece] => if piece = .escaped Byte.lineFeed then [] else piece.bytes
  | piece :: next :: body =>
    if piece = .escaped Byte.lineFeed then collapsed (next :: body)
    else if piece = .escaped Byte.backslash ∧ next = .plain Byte.lineFeed then
      Byte.backslash :: collapsed body
    else piece.bytes ++ collapsed (next :: body)

/-- A protected backslash at the end of a line. -/
def falseContinuation : List Piece :=
  [.escaped Byte.backslash, .plain Byte.lineFeed]

end Literal

/-! ### Joining lines byte by byte -/

/-- A byte that is no backslash stays. -/
theorem joinLines_plain {b : UInt8} (rest : Bytes) (h : b ≠ Byte.backslash) :
    joinLines (b :: rest) = b :: joinLines rest :=
  joinLines.eq_3 b rest fun _ hb _ => h hb

/-- A backslash stays that is not followed by a line feed. -/
theorem joinLines_backslash {b : UInt8} (rest : Bytes) (h : b ≠ Byte.lineFeed) :
    joinLines (Byte.backslash :: b :: rest) = Byte.backslash :: joinLines (b :: rest) :=
  joinLines.eq_3 Byte.backslash (b :: rest) fun _ _ hb => h (List.cons.inj hb).1

/-- A backslash at the end of a line is dropped with the line feed. -/
theorem joinLines_continued (rest : Bytes) :
    joinLines (Byte.backslash :: Byte.lineFeed :: rest) = joinLines rest := rfl

/-- A piece that is not continued, and that does not end in a backslash before a line feed, is
kept. -/
theorem joinLines_piece {piece : Literal.Piece} {rest : Bytes}
    (hplain : piece ≠ .plain Byte.backslash) (hcont : piece ≠ .escaped Byte.lineFeed)
    (hend : piece = .escaped Byte.backslash → rest.head? ≠ some Byte.lineFeed) :
    joinLines (piece.bytes ++ rest) = piece.bytes ++ joinLines rest := by
  have hcr : Byte.carriageReturn ≠ Byte.lineFeed ∧ Byte.carriageReturn ≠ Byte.backslash ∧
      Byte.lineFeed ≠ Byte.backslash := by decide
  cases piece with
  | plain b => exact joinLines_plain rest fun hb => hplain (hb ▸ rfl)
  | escaped b =>
    have hb : b ≠ Byte.lineFeed := fun hb => hcont (hb ▸ rfl)
    refine (joinLines_backslash rest hb).trans (congrArg _ ?_)
    by_cases hbs : b = Byte.backslash
    · subst hbs
      rcases rest with - | ⟨c, rest⟩
      · rfl
      · exact joinLines_backslash rest fun hc => hend rfl (hc ▸ rfl)
    · exact joinLines_plain rest hbs
  | escapedLineEnd =>
    refine (joinLines_backslash _ hcr.1).trans (congrArg _ ?_)
    refine (joinLines_plain _ hcr.2.1).trans (congrArg _ ?_)
    exact joinLines_plain rest hcr.2.2

/-- Pieces that start with a line feed start with one that is not protected. -/
theorem Literal.head?_written_cons_eq_lineFeed {piece : Piece} {body : List Piece} :
    (written (piece :: body)).head? = some Byte.lineFeed ↔ piece = .plain Byte.lineFeed := by
  have hbs : Byte.backslash ≠ Byte.lineFeed := by decide
  cases piece <;> simp [Piece.bytes, hbs]

/-- **What joining lines byte by byte makes of a body.** -/
theorem joinLines_written {long : Bool} {body : List Literal.Piece}
    (h : Literal.Reads long body) : joinLines (Literal.written body) = Literal.collapsed body := by
  have hplain : ∀ piece ∈ body, piece ≠ .plain Byte.backslash := fun piece hmem heq =>
    h.unescaped (heq ▸ hmem)
  clear h
  fun_induction Literal.collapsed body with
  | case1 => rfl
  | case2 => rfl
  | case3 piece hcont =>
    rw [Literal.written_cons, joinLines_piece (hplain piece (by simp)) hcont (by simp)]
    simp [joinLines]
  | case4 next body ih => exact ih fun piece hmem => hplain piece (List.mem_cons_of_mem _ hmem)
  | case5 piece next body hcont hfalse ih =>
    obtain ⟨rfl, rfl⟩ := hfalse
    have hbody : ∀ piece ∈ body, piece ≠ .plain Byte.backslash := fun piece hmem =>
      hplain piece (List.mem_cons_of_mem _ (List.mem_cons_of_mem _ hmem))
    have hbs : Byte.backslash ≠ Byte.lineFeed := by decide
    refine (joinLines_backslash (Byte.lineFeed :: Literal.written body) hbs).trans ?_
    rw [joinLines_continued, ih hbody]
  | case6 piece next body hcont hfalse ih =>
    rw [Literal.written_cons, joinLines_piece (hplain piece (by simp)) hcont, ih]
    · exact fun piece hmem => hplain piece (List.mem_cons_of_mem _ hmem)
    · intro hpiece
      rw [Ne, Literal.head?_written_cons_eq_lineFeed]
      exact fun hnext => hfalse ⟨hpiece, hnext⟩

/-! ### Where the two agree -/

namespace Literal

/-- A false continuation stands at the front, or behind the first piece. -/
theorem falseContinuation_infix_cons {piece next : Piece} {body : List Piece} :
    falseContinuation <:+: piece :: next :: body ↔
      (piece = .escaped Byte.backslash ∧ next = .plain Byte.lineFeed) ∨
        falseContinuation <:+: next :: body := by
  rw [List.infix_cons_iff]
  simp [falseContinuation, eq_comm]

/-- A piece that continues no line stays. -/
theorem joined_cons {piece : Piece} {body : List Piece} (h : piece ≠ .escaped Byte.lineFeed) :
    joined (piece :: body) = piece.bytes ++ joined body := by
  simp [joined, h]

/-- A piece that continues a line is dropped. -/
theorem joined_continued (body : List Piece) :
    joined (.escaped Byte.lineFeed :: body) = joined body := by
  simp [joined]

/-- Without a false continuation only the protected line feeds are dropped. -/
theorem collapsed_eq_joined {body : List Piece} (h : ¬ falseContinuation <:+: body) :
    collapsed body = joined body := by
  fun_induction collapsed body with
  | case1 => rfl
  | case2 => rfl
  | case3 piece hcont =>
    rw [joined_cons hcont]
    simp [joined]
  | case4 next body ih =>
    rw [joined_continued]
    exact ih fun hmem => h (List.infix_cons hmem)
  | case5 piece next body hcont hfalse ih =>
    exact absurd (falseContinuation_infix_cons.mpr (.inl hfalse)) h
  | case6 piece next body hcont hfalse ih =>
    rw [joined_cons hcont, ih fun hmem => h (List.infix_cons hmem)]

/-- Each false continuation loses bytes. -/
theorem length_collapsed (body : List Piece) :
    (collapsed body).length ≤ (joined body).length ∧
      (falseContinuation <:+: body → (collapsed body).length < (joined body).length) := by
  have hsingle : ∀ piece : Piece, ¬ falseContinuation <:+: [piece] := fun piece h => by
    have hlen := h.length_le
    simp [falseContinuation] at hlen
  fun_induction collapsed body with
  | case1 => simp [falseContinuation]
  | case2 => exact ⟨Nat.zero_le _, fun h => absurd h (hsingle _)⟩
  | case3 piece hcont =>
    rw [joined_cons hcont]
    exact ⟨by simp, fun h => absurd h (hsingle _)⟩
  | case4 next body ih =>
    rw [joined_continued]
    refine ⟨ih.1, fun h => ih.2 ?_⟩
    rcases falseContinuation_infix_cons.mp h with ⟨hbs, -⟩ | h
    · exact absurd hbs (by decide)
    · exact h
  | case5 piece next body hcont hfalse ih =>
    obtain ⟨rfl, rfl⟩ := hfalse
    rw [joined_cons hcont, joined_cons (by decide)]
    have := ih.1
    simp only [Piece.bytes, List.length_cons, List.length_append, List.length_nil]
    omega
  | case6 piece next body hcont hfalse ih =>
    rw [joined_cons hcont, List.length_append, List.length_append]
    refine ⟨Nat.add_le_add_left ih.1 _, fun h => Nat.add_lt_add_left (ih.2 ?_) _⟩
    exact (falseContinuation_infix_cons.mp h).resolve_left hfalse

/-- **Only false continuations make a difference.** -/
theorem collapsed_eq_joined_iff {body : List Piece} :
    collapsed body = joined body ↔ ¬ falseContinuation <:+: body := by
  refine ⟨fun heq hmem => ?_, collapsed_eq_joined⟩
  have hlt := (length_collapsed body).2 hmem
  rw [heq] at hlt
  exact absurd hlt (Nat.lt_irrefl _)

end Literal

/-! ### Documentation texts -/

/-- A literal that starts with three double quotes has no letters before it and is long. -/
theorem Literal.Fits.eq_of_docQuotes {literal : Literal} {rest : Bytes} (h : literal.Fits rest)
    (hq : docQuotes <+: literal.text) :
    literal.mark = [] ∧ literal.quote = Byte.doubleQuote ∧ literal.long = true := by
  obtain ⟨mark, q, long, body⟩ := literal
  obtain ⟨hopens, -, -⟩ := h
  dsimp only at hopens ⊢
  obtain ⟨more, hmore⟩ := hq
  simp only [Literal.text, docQuotes, List.append_assoc] at hmore
  have hmark : mark = [] := by
    rcases mark with - | ⟨b, mark⟩
    · rfl
    · obtain rfl := (List.cons.inj hmore).1
      exact absurd ((hopens.maximalRun []).inside Byte.doubleQuote (by simp)) (by decide)
  subst hmark
  cases long with
  | true => exact ⟨rfl, (List.cons.inj hmore).1.symm, rfl⟩
  | false =>
    obtain ⟨rfl, htail⟩ := List.cons.inj hmore
    have hquotes : [Byte.doubleQuote, Byte.doubleQuote] ++ more =
        written body ++ delimiter Byte.doubleQuote false := htail
    refine absurd ⟨more ++ rest, ?_⟩ (hopens.tripled rfl)
    rw [← hquotes, List.append_assoc]

/-- A token that three double quotes open is a body between such quotes, read in pieces. -/
theorem exists_body_of_docQuotes {source : Source} {token : Token} (h : token ∈ source.scan.1)
    (hkind : token.kind = .string) (hq : docQuotes <+: token.text) :
    ∃ body, Literal.Reads true body ∧ Literal.ClosesFirst Byte.doubleQuote true body ∧
      token.text = docQuotes ++ Literal.written body ++ docQuotes := by
  obtain ⟨e, rest, hfits, hstring, htext⟩ := exists_fits_of_mem_scan h
  obtain ⟨literal, rfl⟩ := Element.eq_string_of_kind? (hkind ▸ hstring)
  have hliteral : literal.text = token.text := htext
  have hlit : literal.Fits rest := hfits
  obtain ⟨hmark, hquote, hlong⟩ := hlit.eq_of_docQuotes (hliteral ▸ hq)
  refine ⟨literal.body, hlong ▸ hlit.reads, hquote ▸ hlong ▸ hlit.closesFirst, ?_⟩
  rw [← hliteral, Literal.text, hmark, hquote, hlong]
  rfl

/-- What stands between the quotes of a literal that documentation is read from. -/
def docBody? (literal : Bytes) : Option Bytes :=
  if docQuotes.isPrefixOf literal && 6 ≤ literal.length then
    some ((literal.drop 3).take (literal.length - 6))
  else none

/-- The text of a literal is its body with the continued lines joined. -/
theorem docText?_eq_docBody? (literal : Bytes) :
    docText? literal = (docBody? literal).map joinLines := by
  unfold docText? docBody?
  split <;> rfl

/-- The body of a documentation literal stands between its quotes. -/
theorem docBody?_quoted (body : Bytes) :
    docBody? (docQuotes ++ body ++ docQuotes) = some body := by
  have hpre : docQuotes.isPrefixOf (docQuotes ++ body ++ docQuotes) := by
    rw [List.isPrefixOf_iff_prefix, List.append_assoc]
    exact List.prefix_append _ _
  have hlen : (docQuotes ++ body ++ docQuotes).length = body.length + 6 := by
    simp [docQuotes]
  have hinner : ((docQuotes ++ body ++ docQuotes).drop 3).take body.length = body := by
    rw [List.append_assoc]
    exact List.take_left
  rw [docBody?, hpre, hlen, Nat.add_sub_cancel, hinner]
  simp

/-- **When a documentation text joins exactly the lines that go on.** The text of a literal that
three double quotes open is its body, without the line feeds that a backslash protects, exactly
when no line of the body ends in a protected backslash. Where one does, the second backslash and
the line feed are lost. -/
theorem docText_eq_joined_iff {source : Source} {token : Token} (h : token ∈ source.scan.1)
    (hkind : token.kind = .string) (hq : docQuotes <+: token.text) :
    ∃ body, Literal.Reads true body ∧ Literal.ClosesFirst Byte.doubleQuote true body ∧
      token.text = docQuotes ++ Literal.written body ++ docQuotes ∧
      (∀ body', Literal.Reads true body' →
        token.text = docQuotes ++ Literal.written body' ++ docQuotes → body' = body) ∧
      docText? token.text = some (Literal.collapsed body) ∧
      (docText? token.text = some (Literal.joined body) ↔
        ¬ [.escaped Byte.backslash, .plain Byte.lineFeed] <:+: body) := by
  obtain ⟨body, hreads, hcloses, hbody⟩ := exists_body_of_docQuotes h hkind hq
  have hdoc : docText? token.text = some (Literal.collapsed body) := by
    rw [hbody, docText?_eq_docBody?, docBody?_quoted, Option.map_some, joinLines_written hreads]
  refine ⟨body, hreads, hcloses, hbody, fun body' hreads' heq => ?_, hdoc, ?_⟩
  · rw [hbody, List.append_cancel_right_eq, List.append_cancel_left_eq] at heq
    exact (Literal.written_injective hreads hreads' heq).symm
  · rw [hdoc, Option.some.injEq]
    exact Literal.collapsed_eq_joined_iff

/-- A line that goes on, in a literal with other escapes. -/
theorem docText_eq_joined_iff_continued :
    ∃ body, Literal.Reads true body ∧
      utf8 "\"\"\"x\\\ny\\\\z\"\"\"" = docQuotes ++ Literal.written body ++ docQuotes ∧
      (docText? (utf8 "\"\"\"x\\\ny\\\\z\"\"\"") = some (Literal.joined body) ↔
        ¬ [.escaped Byte.backslash, .plain Byte.lineFeed] <:+: body) := by
  obtain ⟨body, hreads, -, htext, -, -, hiff⟩ := @docText_eq_joined_iff
    ⟨utf8 "a.py", utf8 "\"\"\"x\\\ny\\\\z\"\"\"", .complete⟩
    ⟨.string, utf8 "\"\"\"x\\\ny\\\\z\"\"\"", 1⟩ (by decide) rfl (by decide)
  exact ⟨body, hreads, htext, hiff⟩

/-- A line that ends in a protected backslash and does not go on is joined to the next all the
same: of two backslashes and a line feed, one backslash is left. -/
theorem docText_joins_false_continuation :
    scan ⟨utf8 "a.py", utf8 "\"\"\"x\\\\\ny\"\"\"", .complete⟩ =
      ([⟨.string, utf8 "\"\"\"x\\\\\ny\"\"\"", 1⟩], .ok ⟨.endOfFile, [], 2⟩) ∧
    Literal.Reads true [.plain 120, .escaped Byte.backslash, .plain Byte.lineFeed, .plain 121] ∧
    utf8 "\"\"\"x\\\\\ny\"\"\"" = docQuotes ++ Literal.written
      [.plain 120, .escaped Byte.backslash, .plain Byte.lineFeed, .plain 121] ++ docQuotes ∧
    docText? (utf8 "\"\"\"x\\\\\ny\"\"\"") = some (utf8 "x\\y") ∧
    Literal.joined [.plain 120, .escaped Byte.backslash, .plain Byte.lineFeed, .plain 121] =
      utf8 "x\\\\\ny" := by
  have hne : Byte.carriageReturn ≠ Byte.backslash := by decide
  refine ⟨rfl, ⟨by decide, ?_, by decide⟩, by decide, by decide, by decide⟩
  simp [List.infix_cons_iff, hne]

end DocHarvest.Source
