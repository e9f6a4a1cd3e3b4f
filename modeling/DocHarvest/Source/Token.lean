import DocHarvest.Bytes

/-!
# Tokens

The tokens of a Python source, as far as finding string literals needs them: a token has a
kind, the bytes it was read from, and the line it starts on. `Lexeme.first` reads the first
token of a text that does not start with blanks or a comment.

## Main definitions

* `Kind`, `Token` — what a source is made of.
* `Literal.cut` — the body of a string literal, up to the quotes that close it.
* `Lexeme.first` — the first token of a text.
-/

namespace DocHarvest.Source

/-- The kinds of token. -/
inductive Kind
  | endOfFile
  | string
  | name
  | number
  | op
  deriving DecidableEq, Repr

namespace Kind

/-- The kinds in the order of their numbers. -/
def all : List Kind := [endOfFile, string, name, number, op]

/-- The name of a kind. -/
def label : Kind → String
  | endOfFile => "EOF"
  | string => "STRING"
  | name => "NAME"
  | number => "NUMBER"
  | op => "OP"

/-- The name of the kind with the given number, and a name that shows the number when there
is no such kind. -/
def labelOf (n : Int) : Bytes :=
  match n with
  | .ofNat i =>
    match all[i]? with
    | some kind => utf8 kind.label
    | none => utf8 "Kind(" ++ decimal n ++ utf8 ")"
  | .negSucc _ => utf8 "Kind(" ++ decimal n ++ utf8 ")"

end Kind

/-- A token: its kind, its bytes, and the line it starts on, counted from one. -/
structure Token where
  kind : Kind
  text : Bytes
  line : Nat
  deriving DecidableEq, Repr

/-! ### Classes of bytes -/

/-- The bytes that open a string literal. -/
def isQuote (b : UInt8) : Bool :=
  b = Byte.doubleQuote || b = Byte.singleQuote

/-- The bytes a name starts with: letters, the underscore and everything outside ASCII. -/
def isNameStart (b : UInt8) : Bool :=
  Byte.isLetter b || b = 95 || 0x80 ≤ b

/-- The bytes a name or a number goes on with. -/
def isNameByte (b : UInt8) : Bool :=
  isNameStart b || Byte.isDigit b

/-- The letters that may stand before the quotes of a literal, in small letters. -/
def literalMarks : List Bytes :=
  ["r", "u", "b", "f", "br", "rb", "fr", "rf", "ur"].map utf8

/-- Whether a name directly before a quote belongs to the literal. -/
def isLiteralMark (name : Bytes) : Bool :=
  literalMarks.contains (name.map Byte.lower)

/-! ### String literals -/

namespace Literal

/-- The quotes that open and close a literal: three of them when it is long. -/
def delimiter (quote : UInt8) (long : Bool) : Bytes :=
  if long then [quote, quote, quote] else [quote]

/-- What the search for a literal's end finds. -/
inductive Cut
  /-- The body with the closing quotes, and what follows them. -/
  | closed (body rest : Bytes)
  /-- A line feed that nothing protects, in a literal of one line. -/
  | broken
  /-- The end of the source. -/
  | exhausted
  deriving DecidableEq, Repr

/-- Puts bytes in front of a body. -/
def Cut.after (unit : Bytes) : Cut → Cut
  | closed body rest => closed (unit ++ body) rest
  | broken => broken
  | exhausted => exhausted

/-- Cuts a literal's body at the first quotes that close it. A backslash protects the byte
after it, and both bytes of a two-byte line end. -/
def cut (quote : UInt8) (long : Bool) : Bytes → Cut
  | [] => .exhausted
  | Byte.backslash :: [] => .exhausted
  | Byte.backslash :: Byte.carriageReturn :: Byte.lineFeed :: rest =>
    (cut quote long rest).after [Byte.backslash, Byte.carriageReturn, Byte.lineFeed]
  | Byte.backslash :: b :: rest => (cut quote long rest).after [Byte.backslash, b]
  | b :: rest =>
    if (delimiter quote long).isPrefixOf (b :: rest) then
      .closed (delimiter quote long) ((b :: rest).drop (delimiter quote long).length)
    else if b = Byte.lineFeed && !long then .broken
    else (cut quote long rest).after [b]

end Literal

/-! ### The first token -/

/-- What a text that starts with neither blanks nor a comment begins with. -/
inductive Lexeme
  /-- A token and what follows it. -/
  | token (kind : Kind) (text rest : Bytes)
  /-- A literal of one line that the line's end interrupts. -/
  | brokenLiteral
  /-- A literal that the source's end interrupts. -/
  | openLiteral (long : Bool)
  deriving DecidableEq, Repr

namespace Lexeme

/-- The literal that starts with the given letters and the quote after them. -/
def literal (mark : Bytes) (quote : UInt8) (rest : Bytes) : Lexeme :=
  let long := [quote, quote].isPrefixOf rest
  let opening := Literal.delimiter quote long
  match Literal.cut quote long ((quote :: rest).drop opening.length) with
  | .closed body after => .token .string (mark ++ opening ++ body) after
  | .broken => .brokenLiteral
  | .exhausted => .openLiteral long

/-- The first token of a text, given its first byte and the others. -/
def first (b : UInt8) (rest : Bytes) : Lexeme :=
  let word := (b :: rest).takeWhile isNameByte
  let after := (b :: rest).dropWhile isNameByte
  if isQuote b then literal [] b rest
  else if isNameStart b then
    match after with
    | [] => .token .name word []
    | q :: tail =>
      if isQuote q && isLiteralMark word then literal word q tail
      else .token .name word after
  else if Byte.isDigit b then .token .number word after
  else .token .op [b] rest

end Lexeme

end DocHarvest.Source
