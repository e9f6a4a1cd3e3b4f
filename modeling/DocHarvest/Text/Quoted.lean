import DocHarvest.Bytes.Utf8
import DocHarvest.Text.Printable

/-!
# Quoted Text

Text as messages quote it: between two quote characters, with a backslash before each quote
and backslash, printable characters as they are, and every other character or stray byte
spelled as an escape.

## Main definitions

* `Text.quoted` — a text between double quotes.
* `Text.quotedAscii` — the same, with every character outside ASCII spelled out.
* `Text.backquoted?` — a text between grave accents, when nothing in it has to be escaped.
* `Text.quotedChar` — one character between single quotes.
-/

namespace DocHarvest.Text

/-- The lowest `width` hexadecimal digits of a number. -/
def hexDigits (width n : Nat) : Bytes :=
  let digits := Nat.toDigits 16 n
  utf8Chars (List.replicate (width - digits.length) '0' ++ digits)

/-- How a quoted text treats characters: the quote that surrounds it and whether characters
outside ASCII are spelled out. -/
structure QuoteStyle where
  quote : Char
  asciiOnly : Bool

/-- One character inside quoted text. -/
def QuoteStyle.char (style : QuoteStyle) (c : Char) : Bytes :=
  if c = style.quote || c = '\\' then utf8Chars ['\\', c]
  else if isPrintable c && (c.toNat < 0x80 || !style.asciiOnly) then utf8Chars [c]
  else if c = '\x07' then utf8 "\\a"
  else if c = '\x08' then utf8 "\\b"
  else if c = '\x0c' then utf8 "\\f"
  else if c = '\n' then utf8 "\\n"
  else if c = '\r' then utf8 "\\r"
  else if c = '\t' then utf8 "\\t"
  else if c = '\x0b' then utf8 "\\v"
  else if c.toNat < 0x20 || c.toNat = 0x7F then utf8 "\\x" ++ hexDigits 2 c.toNat
  else if c.toNat < 0x10000 then utf8 "\\u" ++ hexDigits 4 c.toNat
  else utf8 "\\U" ++ hexDigits 8 c.toNat

/-- One piece of a byte string inside quoted text. -/
def QuoteStyle.piece (style : QuoteStyle) : Utf8.Piece → Bytes
  | .char c => style.char c
  | .stray b => utf8 "\\x" ++ hexDigits 2 b.toNat

/-- A byte string between quotes. -/
def QuoteStyle.render (style : QuoteStyle) (s : Bytes) : Bytes :=
  utf8Chars [style.quote] ++ (Utf8.pieces s).flatMap style.piece ++ utf8Chars [style.quote]

/-- A byte string between double quotes. -/
def quoted (s : Bytes) : Bytes :=
  QuoteStyle.render ⟨'"', false⟩ s

/-- A byte string between double quotes, with ASCII characters only. -/
def quotedAscii (s : Bytes) : Bytes :=
  QuoteStyle.render ⟨'"', true⟩ s

/-- A character between single quotes. -/
def quotedChar (c : Char) : Bytes :=
  utf8 "'" ++ QuoteStyle.char ⟨'\'', false⟩ c ++ utf8 "'"

/-- Whether a piece may stand between grave accents. -/
def isRaw : Utf8.Piece → Bool
  | .char c => c ≠ '\x60' && c.toNat ≠ 0x7F && c.toNat ≠ 0xFEFF && (0x20 ≤ c.toNat || c = '\t')
  | .stray _ => false

/-- A byte string between grave accents, if it can stand there without escapes. -/
def backquoted? (s : Bytes) : Option Bytes :=
  if (Utf8.pieces s).all isRaw then some (utf8 "\x60" ++ s ++ utf8 "\x60") else none

end DocHarvest.Text
