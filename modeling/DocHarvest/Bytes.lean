/-!
# Byte Strings

Sources, documents, paths and messages are runs of bytes: most are UTF-8, and none has to
be. This module fixes the type, names the bytes the rest of the library asks about, and
holds the few operations on byte strings that the standard library does not name.

## Main definitions

* `Bytes` — a run of bytes.
* `utf8` — the bytes of a text.
* `lineFeeds` — how many line feeds a run of bytes holds; `lines` cuts it after each of them.
* `decimal` — an integer in decimal notation.
-/

namespace DocHarvest

/-- A run of bytes. -/
abbrev Bytes := List UInt8

/-- The UTF-8 bytes of a run of characters. -/
def utf8Chars (cs : List Char) : Bytes :=
  cs.flatMap String.utf8EncodeChar

/-- The UTF-8 bytes of a text. -/
def utf8 (s : String) : Bytes :=
  utf8Chars s.toList

/-- No characters have no bytes. -/
@[simp] theorem utf8Chars_nil : utf8Chars [] = [] := rfl

/-- The bytes of the first character come first. -/
@[simp] theorem utf8Chars_cons (c : Char) (cs : List Char) :
    utf8Chars (c :: cs) = String.utf8EncodeChar c ++ utf8Chars cs := rfl

/-- Texts are encoded one after another. -/
@[simp] theorem utf8Chars_append (cs ds : List Char) :
    utf8Chars (cs ++ ds) = utf8Chars cs ++ utf8Chars ds := by
  simp [utf8Chars]

namespace Byte

/-- The byte that ends a line. -/
@[match_pattern] abbrev lineFeed : UInt8 := 10

/-- The byte that precedes a line feed in two-byte line ends. -/
@[match_pattern] abbrev carriageReturn : UInt8 := 13

@[match_pattern] abbrev tab : UInt8 := 9

@[match_pattern] abbrev formFeed : UInt8 := 12

@[match_pattern] abbrev space : UInt8 := 32

@[match_pattern] abbrev doubleQuote : UInt8 := 34

@[match_pattern] abbrev hash : UInt8 := 35

@[match_pattern] abbrev singleQuote : UInt8 := 39

@[match_pattern] abbrev slash : UInt8 := 47

@[match_pattern] abbrev backslash : UInt8 := 92

/-- A decimal digit. -/
def isDigit (b : UInt8) : Bool :=
  48 ≤ b && b ≤ 57

/-- An ASCII letter of either case. -/
def isLetter (b : UInt8) : Bool :=
  (65 ≤ b && b ≤ 90) || (97 ≤ b && b ≤ 122)

/-- ASCII capitals become small letters; every other byte stays. -/
def lower (b : UInt8) : UInt8 :=
  if 65 ≤ b && b ≤ 90 then b + 32 else b

end Byte

namespace Bytes

/-- The number of line feeds in a run of bytes. -/
def lineFeeds (s : Bytes) : Nat :=
  s.count Byte.lineFeed

/-- There is no line feed in nothing. -/
@[simp] theorem lineFeeds_nil : lineFeeds [] = 0 := rfl

/-- Line feeds add up. -/
@[simp] theorem lineFeeds_append (s t : Bytes) :
    lineFeeds (s ++ t) = lineFeeds s + lineFeeds t := by
  simp [lineFeeds]

/-- The lines of a run of bytes, each with the line feed that ends it; an unterminated tail
is a line of its own, and no line is empty. -/
def lines : Bytes → List Bytes
  | [] => []
  | b :: rest =>
    if b = Byte.lineFeed then [b] :: lines rest
    else
      match lines rest with
      | [] => [[b]]
      | line :: others => (b :: line) :: others

/-- Cutting into lines loses nothing. -/
@[simp] theorem flatten_lines (s : Bytes) : (lines s).flatten = s := by
  induction s with
  | nil => rfl
  | cons b rest ih =>
    unfold lines
    split
    · simp [ih]
    · split
      · next h => simp [h] at ih; simp [← ih]
      · next line others h => rw [h] at ih; simpa using ih

/-- A text without the given beginning, when it begins so. -/
def dropStem? (stem : Bytes) (s : Bytes) : Option Bytes :=
  if stem.isPrefixOf s then some (s.drop stem.length) else none

/-- A text without the given ending, when it ends so. -/
def dropEnd? (tail : Bytes) (s : Bytes) : Option Bytes :=
  if tail.isSuffixOf s then some (s.take (s.length - tail.length)) else none

/-- Splits a text at every occurrence of a byte; there is always one piece more than
there are occurrences. -/
def splitAt (sep : UInt8) : Bytes → List Bytes
  | [] => [[]]
  | b :: rest =>
    if b = sep then [] :: splitAt sep rest
    else
      match splitAt sep rest with
      | [] => [[b]]
      | piece :: others => (b :: piece) :: others

/-- The pieces of a text joined by a separator. -/
def join (sep : Bytes) : List Bytes → Bytes
  | [] => []
  | [piece] => piece
  | piece :: others => piece ++ sep ++ join sep others

end Bytes

/-- A natural number in decimal notation. -/
def decimalNat (n : Nat) : Bytes :=
  utf8Chars (Nat.toDigits 10 n)

/-- An integer in decimal notation, with a minus sign when it is negative. -/
def decimal : Int → Bytes
  | .ofNat n => decimalNat n
  | .negSucc n => utf8 "-" ++ decimalNat (n + 1)

end DocHarvest
