import DocHarvest.Source.Scanner

/-!
# The Grammar of Sources

What a source is made of, said without a scanner. A source is a run of elements: blanks and
comments, which stand between tokens, and the tokens themselves. Whether an element may stand
where it stands depends on what follows it, because words and comments reach as far as they
can, and because a literal ends at the first quotes that nothing protects.

A literal's body is read in pieces. A backslash and the byte it protects are one piece, and a
backslash protects both bytes of a two-byte line end; every other byte is a piece of its own.
Quotes close the literal when they are pieces of their own.

## Main definitions

* `Literal.Piece`, `Literal.written` — the pieces of a body, and the bytes they are read from.
* `Literal.Opens`, `Literal.Reads`, `Literal.ClosesFirst` — what makes a string literal.
* `Unclosed` — a literal starts that no quotes close.
* `Element`, `Element.Fits` — the elements, and when one may stand before a text.
* `Cuts`, `Splits` — a text cut into elements up to a rest, or to its end.
* `placed`, `nesting` — the tokens among elements, and the brackets they leave open.
-/

namespace DocHarvest.Source

/-! ### String literals -/

/-- A piece of a literal's body. -/
inductive Literal.Piece
  /-- A byte that nothing protects. -/
  | plain (b : UInt8)
  /-- A backslash and the byte it protects. -/
  | escaped (b : UInt8)
  /-- A backslash and the two bytes of a line end, both protected. -/
  | escapedLineEnd
  deriving DecidableEq, Repr

namespace Literal

/-- The bytes that a piece is read from. -/
def Piece.bytes : Piece → Bytes
  | plain b => [b]
  | escaped b => [Byte.backslash, b]
  | escapedLineEnd => [Byte.backslash, Byte.carriageReturn, Byte.lineFeed]

/-- The bytes that pieces are read from. -/
def written (body : List Piece) : Bytes :=
  body.flatMap Piece.bytes

/-- No pieces are written as nothing. -/
@[simp] theorem written_nil : written [] = [] := rfl

/-- The first piece comes first. -/
@[simp] theorem written_cons (piece : Piece) (body : List Piece) :
    written (piece :: body) = piece.bytes ++ written body := rfl

/-- The closing quotes as pieces. -/
def closing (quote : UInt8) (long : Bool) : List Piece :=
  (delimiter quote long).map .plain

/-- The letters and quotes that open a literal, before the given text: quotes are tripled
when two more of them follow the first. -/
structure Opens (mark : Bytes) (quote : UInt8) (long : Bool) (after : Bytes) : Prop where
  isMark : mark = [] ∨ isLiteralMark mark
  isQuote : isQuote quote
  tripled : long = false → ¬ [quote, quote] <+: after

/-- Pieces read from left to right: a backslash is always the start of a longer piece, which
takes both bytes of a line end. The pieces of a literal that is not long hold no line feed that
nothing protects. -/
structure Reads (long : Bool) (body : List Piece) : Prop where
  unescaped : .plain Byte.backslash ∉ body
  greedy : ¬ [.escaped Byte.carriageReturn, .plain Byte.lineFeed] <:+: body
  oneLine : long = false → .plain Byte.lineFeed ∉ body

/-- Quotes after the pieces are the first that close the literal. -/
def ClosesFirst (quote : UInt8) (long : Bool) (body : List Piece) : Prop :=
  ¬ closing quote long <:+: body ++ (closing quote long).dropLast

end Literal

/-- A string literal: the letters before its quotes, the quote, whether it stands three times,
and the pieces of the body. -/
structure Literal where
  mark : Bytes
  quote : UInt8
  long : Bool
  body : List Literal.Piece
  deriving DecidableEq, Repr

namespace Literal

/-- The bytes of a literal. -/
def text (literal : Literal) : Bytes :=
  literal.mark ++ delimiter literal.quote literal.long ++ written literal.body ++
    delimiter literal.quote literal.long

/-- A literal is well formed before the given text. -/
structure Fits (literal : Literal) (rest : Bytes) : Prop where
  opens : Opens literal.mark literal.quote literal.long
    (written literal.body ++ delimiter literal.quote literal.long ++ rest)
  reads : Reads literal.long literal.body
  closesFirst : ClosesFirst literal.quote literal.long literal.body

end Literal

/-- A literal starts that no quotes close, and what that makes of the source. -/
def Unclosed (s : Bytes) (what : Malformation) : Prop :=
  ∃ mark q long after, Literal.Opens mark q long after ∧
    s = mark ++ Literal.delimiter q long ++ after ∧
    (∀ body more, Literal.Reads long body → Literal.ClosesFirst q long body →
      after ≠ Literal.written body ++ Literal.delimiter q long ++ more) ∧
    what = if long then .openText else .openLine

/-! ### Elements -/

/-- What a source is made of. -/
inductive Element
  | blank (b : UInt8)
  /-- A hash and the bytes after it. -/
  | comment (body : Bytes)
  | name (text : Bytes)
  | number (text : Bytes)
  | string (literal : Literal)
  | op (b : UInt8)
  deriving DecidableEq, Repr

/-- A run of name bytes that the given text does not go on with. -/
structure MaximalRun (text rest : Bytes) : Prop where
  inside : ∀ b ∈ text, isNameByte b
  stops : ∀ b ∈ rest.head?, ¬ isNameByte b

namespace Element

/-- The bytes of an element. -/
def text : Element → Bytes
  | blank b => [b]
  | comment body => Byte.hash :: body
  | name text => text
  | number text => text
  | string literal => literal.text
  | op b => [b]

/-- The kind of token that an element is, if it is one. -/
def kind? : Element → Option Kind
  | blank _ => none
  | comment _ => none
  | name _ => some .name
  | number _ => some .number
  | string _ => some .string
  | op _ => some .op

/-- Whether an element may stand before the given text. -/
def Fits : Element → Bytes → Prop
  | blank b, _ => isBlank b
  | comment body, rest => Byte.lineFeed ∉ body ∧ ∀ b ∈ rest.head?, b = Byte.lineFeed
  | name text, rest =>
    MaximalRun text rest ∧ (∃ b ∈ text.head?, isNameStart b) ∧
      ¬ (isLiteralMark text ∧ ∃ q ∈ rest.head?, isQuote q)
  | number text, rest => MaximalRun text rest ∧ ∃ b ∈ text.head?, Byte.isDigit b
  | string literal, rest => literal.Fits rest
  | op b, _ => ¬ isBlank b ∧ b ≠ Byte.hash ∧ ¬ isQuote b ∧ ¬ isNameByte b

/-- The brackets left open after an element. A closing bracket closes nothing when none is
open. -/
def nest (depth : Nat) : Element → Nat
  | op b =>
    if b ∈ utf8 "([\x7b" then depth + 1 else if b ∈ utf8 ")]\x7d" then depth - 1 else depth
  | _ => depth

end Element

/-- The bytes of elements. -/
def spelled (elements : List Element) : Bytes :=
  elements.flatMap Element.text

/-- The brackets that elements leave open. -/
def nesting (elements : List Element) : Nat :=
  elements.foldl Element.nest 0

/-- The tokens among elements, the first of which starts on the given line. -/
def placed : Nat → List Element → List Token
  | _, [] => []
  | line, e :: others =>
    match e.kind? with
    | none => placed (line + Bytes.lineFeeds e.text) others
    | some kind => ⟨kind, e.text, line⟩ :: placed (line + Bytes.lineFeeds e.text) others

/-- A text is cut into elements, each of which fits what follows it, up to a rest. -/
inductive Cuts : Bytes → List Element → Bytes → Prop
  | stop (rest : Bytes) : Cuts rest [] rest
  | step {e : Element} {more : Bytes} {others : List Element} {rest : Bytes} :
      e.Fits more → Cuts more others rest → Cuts (e.text ++ more) (e :: others) rest

/-- A text is cut into elements to its end. -/
def Splits (s : Bytes) (elements : List Element) : Prop :=
  Cuts s elements []

end DocHarvest.Source
