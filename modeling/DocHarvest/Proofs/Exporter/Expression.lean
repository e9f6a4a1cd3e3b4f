import DocHarvest.Exporter
import DocHarvest.Proofs.Bytes.Ascii

/-!
# The Expression That Exports

The expression that makes a document is a template filled with the name of the format. Here is what
becomes of templates that are made of plain text, of doubled percent signs, and of places for the
argument. Such a template can be as long as it likes, and its plain text can look like anything: a
doubled percent sign is a directive of its own, so what follows it is plain text even where it
reads like the flags or the verb of a directive.

## Main definitions

* `Template.Piece` — a piece of such a template; `Template.written` is the template.
* `Template.Piece.shown` — what a piece leaves in the output, given what stands for the argument.

## Main results

* `Template.readHead_of_bare` — a directive that is nothing but a verb.
* `Template.fill_of_not_mem`, `Template.fill_of_split` — a template filled, without a place for the
  argument and with one.
* `FormatterSettings.arguments_of_pieces` — what the formatter is called with.
-/

namespace DocHarvest

namespace Template

/-- The byte that starts directives. -/
abbrev percentSign : UInt8 := 37

/-- A piece of a template: plain text, a doubled percent sign, or a place for the argument. -/
inductive Piece
  | plain (text : Bytes) (noSign : percentSign ∉ text)
  | percent
  | argument
  deriving DecidableEq, Repr

/-- A piece as it stands in a template. -/
def Piece.text : Piece → Bytes
  | plain text _ => text
  | percent => utf8 "%%"
  | argument => utf8 "%s"

/-- The template that is made of pieces. -/
def written (pieces : List Piece) : Bytes :=
  pieces.flatMap Piece.text

/-- What a piece leaves in the output, given what stands for the argument. -/
def Piece.shown (inPlace : Bytes) : Piece → Bytes
  | plain text _ => text
  | percent => utf8 "%"
  | argument => inPlace

/-- What stands for an argument that has been used up. -/
def missing : Bytes := utf8 "%!s(MISSING)"

/-- What follows a template without a place for its argument. -/
def extra (argument : Bytes) : Bytes :=
  utf8 "%!(EXTRA types.ExportFormat=" ++ argument ++ utf8 ")"

/-- No pieces are written as nothing. -/
@[simp] theorem written_nil : written [] = [] := rfl

/-- The first piece comes first. -/
@[simp] theorem written_cons (piece : Piece) (pieces : List Piece) :
    written (piece :: pieces) = piece.text ++ written pieces := rfl

/-- Pieces are written one after another. -/
theorem written_append (pieces others : List Piece) :
    written (pieces ++ others) = written pieces ++ written others :=
  List.flatMap_append

/-- A percent sign is written twice. -/
theorem text_percent : Piece.percent.text = [percentSign, 37] := by decide

/-- The place of the argument is a percent sign and the letter `s`. -/
theorem text_argument : Piece.argument.text = [percentSign, 115] := by decide

/-! ### Directives without flags -/

/-- A byte that can only be a verb: an ASCII byte that starts no flag, index, width or
precision. -/
structure IsBare (b : UInt8) : Prop where
  ascii : b.toNat < 0x80
  notFlag : b ∉ [35, 48, 43, 45, 32]
  notDigit : Byte.isDigit b = false
  notMark : b ∉ [91, 42, 46]

instance (b : UInt8) : Decidable (IsBare b) :=
  decidable_of_iff
    (b.toNat < 0x80 ∧ b ∉ [35, 48, 43, 45, 32] ∧ Byte.isDigit b = false ∧ b ∉ [91, 42, 46])
    ⟨fun ⟨h₁, h₂, h₃, h₄⟩ => ⟨h₁, h₂, h₃, h₄⟩, fun ⟨h₁, h₂, h₃, h₄⟩ => ⟨h₁, h₂, h₃, h₄⟩⟩

section Bare

variable {b : UInt8} (h : IsBare b) (rest : Bytes)
include h

/-- A byte that is no part of a layout is no flag. -/
theorem readFlags_of_bare (layout : Layout) :
    readFlags layout (b :: rest) = (layout, b :: rest) := by
  have hflag := h.notFlag
  simp only [List.mem_cons, List.not_mem_nil, or_false, not_or] at hflag
  simp [readFlags, hflag]

/-- A byte that is no part of a layout starts no index. -/
theorem readIndex_of_bare (position : Position) :
    readIndex position (b :: rest) = { position, rest := b :: rest } := by
  have hmark := h.notMark
  simp only [List.mem_cons, List.not_mem_nil, or_false, not_or] at hmark
  unfold readIndex
  split
  · next heq => exact absurd (List.cons.inj heq).1 hmark.1
  · rfl

/-- A byte that is no part of a layout is no digit. -/
theorem readNumber_of_bare (soFar : Option Nat) :
    readNumber soFar (b :: rest) = (soFar, b :: rest) := by
  simp [readNumber, h.notDigit]

/-- **A directive that is nothing but a verb** has no layout and leaves the position as it is. -/
theorem readHead_of_bare (position : Position) :
    readHead position (b :: rest) =
      { layout := {}, index := { position, rest := b :: rest } } := by
  have hmark := h.notMark
  simp only [List.mem_cons, List.not_mem_nil, or_false, not_or] at hmark
  obtain ⟨-, hstar, hpoint⟩ := hmark
  have hwidth : readWidth {} { position, rest := b :: rest } =
      { layout := {}, index := { position, rest := b :: rest } } := by
    simp [readWidth, hstar, readNumber_of_bare h]
  have hprecision : ∀ layout, readPrecision { layout, index := { position, rest := b :: rest } } =
      { layout, index := { position, rest := b :: rest } } := by
    intro layout
    simp [readPrecision, hpoint]
  simp [readHead, readFlags_of_bare h, readIndex_of_bare h, hwidth, hprecision, readLastIndex]

/-- The verb is the character that the byte stands for. -/
theorem readVerb_of_bare : readVerb b rest = (Char.ofNat b.toNat, rest) := by
  have hencoded := Utf8.encoded_ofNat h.ascii
  have hpieces : Utf8.pieces ((b :: rest).take 4) =
      .char (Char.ofNat b.toNat) :: Utf8.pieces (rest.take 3) := by
    have hread := Utf8.pieces_encoded (Char.ofNat b.toNat) (rest.take 3)
    rwa [hencoded] at hread
  rw [readVerb, hpieces]
  simp [hencoded]

end Bare

/-- A layout that asks for nothing shows the argument as it is. -/
theorem display_string (argument : Bytes) : display {} 's' argument = argument := by
  simp [display, Layout.plain, Layout.truncate, Layout.pad, Layout.padding]

/-- A doubled percent sign stands for one, and uses no argument. -/
theorem directive_percent (argument rest : Bytes) (position : Position) :
    directive argument position (37 :: rest) = (utf8 "%", position, rest) := by
  have hbare : IsBare 37 := by decide
  simp [directive, readHead_of_bare hbare, readVerb_of_bare hbare]

/-- The first place is taken by the argument. -/
theorem directive_first (argument rest : Bytes) :
    directive argument {} (115 :: rest) = (argument, { argument := 1 }, rest) := by
  have hbare : IsBare 115 := by decide
  simp [directive, readHead_of_bare hbare, readVerb_of_bare hbare, display_string]

/-- Every later place complains. -/
theorem directive_later (argument rest : Bytes) {position : Position}
    (h : 0 < position.argument) :
    directive argument position (115 :: rest) = (missing, position, rest) := by
  have hbare : IsBare 115 := by decide
  have hcomplaint : complaint 's' (utf8 "MISSING") = missing := by decide
  simp [directive, readHead_of_bare hbare, readVerb_of_bare hbare, h, hcomplaint]

/-! ### One piece after another -/

variable (argument : Bytes) (position : Position) {fuel : Nat}

/-- Plain text is left as it is. -/
theorem fillFrom_plain {text : Bytes} (hplain : percentSign ∉ text) (rest : Bytes)
    (hfuel : text.length ≤ fuel) :
    fillFrom argument fuel position (text ++ rest) =
      text ++ fillFrom argument (fuel - text.length) position rest := by
  induction text generalizing fuel with
  | nil => rfl
  | cons b text ih =>
    have hb : b ≠ percentSign := Ne.symm (List.ne_of_not_mem_cons hplain)
    have htext : percentSign ∉ text := List.not_mem_of_not_mem_cons hplain
    cases fuel with
    | zero => simp at hfuel
    | succ fuel =>
      have hlength : text.length ≤ fuel := Nat.le_of_succ_le_succ hfuel
      rw [List.cons_append, fillFrom, if_neg hb, ih htext hlength, List.length_cons,
        Nat.succ_sub_succ]
      rfl

/-- A directive leaves its output and goes on after it. -/
theorem fillFrom_directive {argument s rest output : Bytes} {position position' : Position}
    (h : directive argument position s = (output, position', rest)) :
    fillFrom argument (fuel + 1) position (percentSign :: s) =
      output ++ fillFrom argument fuel position' rest := by
  rw [fillFrom, if_pos rfl, h]

/-- **What one piece does** that is no place for the argument: it is shown, and the position stays.
The fuel that is left is enough for the rest. -/
theorem fillFrom_piece {piece : Piece} (hpiece : piece ≠ .argument) (inPlace rest : Bytes)
    (hfuel : piece.text.length + rest.length ≤ fuel) :
    ∃ left, rest.length ≤ left ∧
      fillFrom argument fuel position (piece.text ++ rest) =
        piece.shown inPlace ++ fillFrom argument left position rest := by
  cases piece with
  | argument => exact absurd rfl hpiece
  | plain text hplain =>
    have hfuel' : text.length + rest.length ≤ fuel := hfuel
    exact ⟨fuel - text.length, by omega, fillFrom_plain argument position hplain rest (by omega)⟩
  | percent =>
    rw [text_percent] at hfuel ⊢
    obtain ⟨left, rfl⟩ : ∃ left, fuel = left + 1 :=
      Nat.exists_eq_succ_of_ne_zero (by simp at hfuel; omega)
    refine ⟨left, by simp at hfuel; omega, ?_⟩
    exact fillFrom_directive (directive_percent argument rest position)

/-- Pieces before the first place for the argument are shown, whatever follows them. -/
theorem fillFrom_before {pieces : List Piece} (h : .argument ∉ pieces) (inPlace rest : Bytes)
    (hfuel : (written pieces).length + rest.length ≤ fuel) :
    ∃ left, rest.length ≤ left ∧
      fillFrom argument fuel position (written pieces ++ rest) =
        pieces.flatMap (Piece.shown inPlace) ++ fillFrom argument left position rest := by
  induction pieces generalizing fuel with
  | nil => exact ⟨fuel, by simpa using hfuel, rfl⟩
  | cons piece pieces ih =>
    have hpiece : piece ≠ .argument := Ne.symm (List.ne_of_not_mem_cons h)
    rw [written_cons, List.length_append, Nat.add_assoc, ← List.length_append] at hfuel
    obtain ⟨left, hleft, hfirst⟩ :=
      fillFrom_piece argument position hpiece inPlace (written pieces ++ rest) hfuel
    rw [List.length_append] at hleft
    obtain ⟨left', hleft', hothers⟩ := ih (List.not_mem_of_not_mem_cons h) hleft
    refine ⟨left', hleft', ?_⟩
    rw [written_cons, List.append_assoc, hfirst, hothers, List.flatMap_cons, List.append_assoc]

/-- Once the argument has been used, every place for it is shown as missing. -/
theorem fillFrom_later {position : Position} {pieces : List Piece} (hused : 0 < position.argument)
    (hfuel : (written pieces).length ≤ fuel) :
    fillFrom argument fuel position (written pieces) = pieces.flatMap (Piece.shown missing) := by
  have hleftover : leftover argument position = [] := by
    simp [leftover, Nat.pos_iff_ne_zero.mp hused]
  induction pieces generalizing fuel with
  | nil => cases fuel <;> simp [fillFrom, hleftover]
  | cons piece pieces ih =>
    rw [written_cons, List.length_append] at hfuel
    rw [written_cons, List.flatMap_cons]
    by_cases hpiece : piece = .argument
    · subst hpiece
      rw [text_argument] at hfuel ⊢
      obtain ⟨left, rfl⟩ : ∃ left, fuel = left + 1 :=
        Nat.exists_eq_succ_of_ne_zero (by simp at hfuel; omega)
      have hdirective := directive_later argument (written pieces) hused
      rw [List.cons_append, List.singleton_append, fillFrom_directive hdirective,
        ih (by simp at hfuel; omega)]
      rfl
    · obtain ⟨left, hleft, hfirst⟩ := fillFrom_piece argument position hpiece missing
        (written pieces) hfuel
      rw [hfirst, ih hleft]

/-! ### Whole templates -/

/-- **A template without a place for the argument** is shown, and the argument is said to be too
much. -/
theorem fill_of_not_mem {pieces : List Piece} (h : .argument ∉ pieces) :
    fill (written pieces) argument = pieces.flatMap (Piece.shown []) ++ extra argument := by
  obtain ⟨left, -, hfill⟩ := fillFrom_before argument {} h [] [] (Nat.le_refl _)
  rw [List.append_nil] at hfill
  have hleftover : fillFrom argument left {} [] = extra argument := by
    have hopening : utf8 "%!(EXTRA " ++ argumentType ++ utf8 "=" =
        utf8 "%!(EXTRA types.ExportFormat=" := by
      decide
    cases left <;> simp [fillFrom, leftover, extra, ← hopening]
  rw [fill, ← hleftover, ← hfill, List.length_nil, Nat.add_zero]

/-- **A template with a place for the argument** shows it in the first one. -/
theorem fill_of_split {before later : List Piece} (h : .argument ∉ before) :
    fill (written (before ++ .argument :: later)) argument =
      before.flatMap (Piece.shown []) ++ argument ++ later.flatMap (Piece.shown missing) := by
  obtain ⟨left, hleft, hbefore⟩ :=
    fillFrom_before argument {} h [] (written (.argument :: later)) (Nat.le_refl _)
  rw [written_cons, text_argument] at hleft hbefore
  obtain ⟨fuel, rfl⟩ : ∃ fuel, left = fuel + 1 :=
    Nat.exists_eq_succ_of_ne_zero (by simp at hleft; omega)
  have hlater : fillFrom argument fuel { argument := 1 } (written later) =
      later.flatMap (Piece.shown missing) :=
    fillFrom_later argument Nat.one_pos (by simp at hleft; omega)
  have hdirective := directive_first argument (written later)
  rw [List.cons_append, List.singleton_append, fillFrom_directive hdirective, hlater] at hbefore
  rw [fill, written_append, List.length_append, written_cons, text_argument, List.cons_append,
    List.singleton_append, hbefore, List.append_assoc]

end Template

namespace FormatterSettings

open Template (Piece written missing extra)

/-- **What the formatter is called with**, for every template that is not empty and is made of plain
text, doubled percent signs and places for the argument. The path of the outline and the expression
evaluated first stand there as they are. In the expression that exports, plain text is unchanged, a
doubled percent sign is one, the first place holds the name of the format, and every further place
says that the argument is missing. Only a template without any place is followed by a complaint
about the argument. -/
theorem arguments_of_pieces (settings : FormatterSettings) (format : Format) (outline : Bytes)
    {pieces : List Piece} (htemplate : settings.exportEval = written pieces)
    (hne : written pieces ≠ []) :
    ∃ expression,
      settings.arguments format outline =
        [utf8 "--batch", outline,
          utf8 "--eval", if settings.setupEval = [] then Key.setupEval.default
            else settings.setupEval,
          utf8 "--eval", expression] ∧
      (.argument ∉ pieces →
        expression = pieces.flatMap (Piece.shown []) ++
          utf8 "%!(EXTRA types.ExportFormat=" ++ format.name ++ utf8 ")") ∧
      (∀ before later, pieces = before ++ .argument :: later → .argument ∉ before →
        expression = before.flatMap (Piece.shown []) ++ format.name ++
          later.flatMap (Piece.shown (utf8 "%!s(MISSING)"))) := by
  have hexport : settings.effective.exportEval = written pieces := by
    simp [effective, htemplate, hne]
  refine ⟨Template.fill (written pieces) format.name, ?_, ?_, ?_⟩
  · rw [arguments, hexport]
    simp [effective]
  · intro hnone
    rw [Template.fill_of_not_mem _ hnone, extra]
    simp only [List.append_assoc]
  · rintro before later rfl hbefore
    rw [Template.fill_of_split _ hbefore, missing]

/-- Settings whose template is full of what looks like directives. -/
def awkward : FormatterSettings where
  command := []
  setupEval := utf8 "%s%d"
  exportEval := utf8 "%%-5s%s100%%[1]s%s%%"

/-- Expressions that hold percent signs, an index and a lost argument. -/
theorem arguments_of_pieces_awkward :
    awkward.exportEval ≠ [] ∧
    awkward.arguments .html (utf8 "%s.org") =
      [utf8 "--batch", utf8 "%s.org", utf8 "--eval", utf8 "%s%d",
        utf8 "--eval", utf8 "%-5shtml100%[1]s%!s(MISSING)%"] := by
  let before : List Piece := [.percent, .plain (utf8 "-5s") (by decide)]
  let later : List Piece :=
    [.plain (utf8 "100") (by decide), .percent, .plain (utf8 "[1]s") (by decide), .argument,
      .percent]
  have htemplate : awkward.exportEval = written (before ++ .argument :: later) := by decide
  have hne : awkward.exportEval ≠ [] := by decide
  obtain ⟨expression, hcall, -, hsplit⟩ :=
    arguments_of_pieces awkward .html (utf8 "%s.org") htemplate (htemplate ▸ hne)
  refine ⟨hne, ?_⟩
  rw [hcall, hsplit before later rfl (by decide)]
  decide

end FormatterSettings

end DocHarvest
