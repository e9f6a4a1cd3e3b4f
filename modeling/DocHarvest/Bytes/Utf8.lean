import DocHarvest.Bytes

/-!
# UTF-8

A run of bytes read as UTF-8: characters where the bytes encode one, stray bytes where they
do not. A group of bytes denotes a character exactly when it is that character's encoding,
so overlong forms, surrogates and code points beyond the last one are stray bytes.

## Main definitions

* `Utf8.pieces` — the characters and stray bytes of a run of bytes.
* `Utf8.chars?` — its characters, when there is no stray byte; `Utf8.isValid` says whether.
* `Utf8.ofLatin1` — the UTF-8 form of bytes that stand for one character each.
-/

namespace DocHarvest.Utf8

/-- What a run of bytes holds at one place: a character or a byte that belongs to none. -/
inductive Piece
  | char (c : Char)
  | stray (b : UInt8)
  deriving DecidableEq, Repr

namespace Piece

/-- The character, if it is one. -/
def char? : Piece → Option Char
  | char c => some c
  | stray _ => none

/-- The bytes the piece was read from. -/
def bytes : Piece → Bytes
  | char c => String.utf8EncodeChar c
  | stray b => [b]

end Piece

/-- The character with the given code point, if the given bytes are its encoding. -/
def charOf? (codePoint : Nat) (encoding : Bytes) : Option Char :=
  let c := Char.ofNat codePoint
  if String.utf8EncodeChar c = encoding then some c else none

/-- The character that one byte encodes. -/
def one? (a : UInt8) : Option Char :=
  if a < 0x80 then some (Char.ofNat a.toNat) else none

/-- The character that two bytes encode. -/
def two? (a b : UInt8) : Option Char :=
  if 0xC0 ≤ a && a < 0xE0 then
    charOf? (a.toNat % 32 * 64 + b.toNat % 64) [a, b]
  else none

/-- The character that three bytes encode. -/
def three? (a b c : UInt8) : Option Char :=
  if 0xE0 ≤ a && a < 0xF0 then
    charOf? ((a.toNat % 16 * 64 + b.toNat % 64) * 64 + c.toNat % 64) [a, b, c]
  else none

/-- The character that four bytes encode. -/
def four? (a b c d : UInt8) : Option Char :=
  if 0xF0 ≤ a && a < 0xF8 then
    charOf? (((a.toNat % 8 * 64 + b.toNat % 64) * 64 + c.toNat % 64) * 64 + d.toNat % 64)
      [a, b, c, d]
  else none

/-- The characters of a run of bytes, with a stray byte wherever none starts. -/
def pieces : Bytes → List Piece
  | [] => []
  | a :: rest =>
    match one? a with
    | some ch => .char ch :: pieces rest
    | none =>
      match rest with
      | [] => [.stray a]
      | b :: rest₂ =>
        match two? a b with
        | some ch => .char ch :: pieces rest₂
        | none =>
          match rest₂ with
          | [] => .stray a :: pieces (b :: [])
          | c :: rest₃ =>
            match three? a b c with
            | some ch => .char ch :: pieces rest₃
            | none =>
              match rest₃ with
              | [] => .stray a :: pieces (b :: c :: [])
              | d :: rest₄ =>
                match four? a b c d with
                | some ch => .char ch :: pieces rest₄
                | none => .stray a :: pieces (b :: c :: d :: rest₄)

/-- The characters of a run of bytes, if it is UTF-8 throughout. -/
def chars? (s : Bytes) : Option (List Char) :=
  (pieces s).mapM Piece.char?

/-- Whether a run of bytes is UTF-8 throughout. -/
def isValid (s : Bytes) : Bool :=
  (pieces s).all fun piece => piece.char?.isSome

/-- The characters of a run of bytes, each stray byte read as the replacement character. -/
def charsLossy (s : Bytes) : List Char :=
  (pieces s).map fun piece => piece.char?.getD '\ufffd'

/-- The UTF-8 form of bytes that each stand for the character with that code point. -/
def ofLatin1 (s : Bytes) : Bytes :=
  utf8Chars (s.map fun b => Char.ofNat b.toNat)

end DocHarvest.Utf8
