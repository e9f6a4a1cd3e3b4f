import DocHarvest.Bytes.Utf8
import DocHarvest.Yaml.Char

/-!
# The Supply of Characters

A file is decoded block by block, and only as far as somebody reads it. What cannot be decoded
spoils the whole block that holds it, but none before it, so a file with a bad end may well be
read as far as it is needed.

## Main definitions

* `Yaml.Encoding` — the encodings of a file, which a mark at its start names.
* `Yaml.Lead` — what the bytes ahead begin with.
* `Yaml.Supply` — the characters that can be decoded, in how large blocks they come, and how
  they end.
* `Yaml.supply` — the supply of a file.
-/

namespace DocHarvest.Yaml

/-- The encodings of a file. -/
inductive Encoding
  | utf8
  | utf16 (littleEndian : Bool)
  deriving DecidableEq, Repr

/-- What the bytes ahead begin with: a character that so many bytes encode, the start of one that
goes on behind the end of the block, or nothing that may stand in a document. -/
inductive Lead
  | char (c : Char) (width : Nat)
  | cut
  | bad
  deriving DecidableEq, Repr

/-- A character that so many bytes encode, if it may stand in a document. -/
def Lead.ofChar (c : Char) (width : Nat) : Lead :=
  if isAllowed c then .char c width else .bad

/-- The number of bytes in the encoding of a character that starts with a given byte; zero when
none starts so. -/
def encodedLength (b : UInt8) : Nat :=
  if b < 0x80 then 1 else if b < 0xC0 then 0 else if b < 0xE0 then 2 else if b < 0xF0 then 3
  else if b < 0xF8 then 4 else 0

/-- What bytes begin with that are read as UTF-8, in a block of so many bytes. -/
def leadUtf8 (size : Nat) (s : Bytes) : Lead :=
  match s with
  | [] => .cut
  | b :: _ =>
    let width := encodedLength b
    let group := s.take width
    if width = 0 then .bad
    else if size < width || group.length < width then .cut
    else
      match Utf8.chars? group with
      | some [c] => .ofChar c width
      | _ => .bad

/-- The unit of sixteen bits that two bytes form. -/
def unit (littleEndian : Bool) (a b : UInt8) : Nat :=
  if littleEndian then b.toNat * 256 + a.toNat else a.toNat * 256 + b.toNat

/-- The character that two halves of a pair stand for. -/
def pairedChar (high low : Nat) : Char :=
  Char.ofNat (0x10000 + (high - 0xD800) * 0x400 + (low - 0xDC00))

/-- What bytes begin with that are read in units of sixteen bits, in a block of so many bytes. -/
def leadUtf16 (littleEndian : Bool) (size : Nat) (s : Bytes) : Lead :=
  match s with
  | a :: b :: rest =>
    let high := unit littleEndian a b
    if size < 2 then .cut
    else if 0xDC00 ≤ high && high < 0xE000 then .bad
    else if 0xD800 ≤ high && high < 0xDC00 then
      match rest with
      | c :: d :: _ =>
        let low := unit littleEndian c d
        if size < 4 then .cut
        else if 0xDC00 ≤ low && low < 0xE000 then .ofChar (pairedChar high low) 4
        else .bad
      | _ => .cut
    else .ofChar (Char.ofNat high) 2
  | _ => .cut

/-- What bytes begin with, in a block of so many bytes. -/
def Encoding.lead : Encoding → Nat → Bytes → Lead
  | utf8 => leadUtf8
  | utf16 littleEndian => leadUtf16 littleEndian

/-- How many bytes are decoded at a time. -/
def blockSize : Nat := 512

/-- The characters in a block of so many bytes, and the bytes after the last of them; nothing when
the block is spoilt. The fuel bounds the number of characters. -/
def decodeBlock (encoding : Encoding) :
    (fuel size : Nat) → List Char → Bytes → Option (List Char × Bytes)
  | 0, _, chars, s => some (chars.reverse, s)
  | fuel + 1, size, chars, s =>
    match encoding.lead size s with
    | .char c width => decodeBlock encoding fuel (size - width) (c :: chars) (s.drop width)
    | .cut => some (chars.reverse, s)
    | .bad => none

/-- The blocks of characters in a text, the first of which has so many bytes, and whether they
reach its end. A character that the end cuts off spoils a block of its own. The fuel bounds the
number of blocks. -/
def decodeBlocks (encoding : Encoding) : (fuel size : Nat) → Bytes → List (List Char) × Bool
  | 0, _, s => ([], s.isEmpty)
  | fuel + 1, size, s =>
    if s.isEmpty then ([], true)
    else
      match decodeBlock encoding size size [] s with
      | none | some ([], _) => ([], false)
      | some (chars, rest) =>
        let (blocks, sound) := decodeBlocks encoding fuel blockSize rest
        (chars :: blocks, sound)

/-- The characters that can be decoded, the number of them in each block, and whether they are all
there is: a supply that is not sound ends in a spoilt block. -/
structure Supply where
  chars : List Char
  blocks : List Nat
  sound : Bool
  deriving DecidableEq, Repr

/-- The supply of a text in an encoding, after a mark of so many bytes. -/
def Encoding.supply (encoding : Encoding) (mark : Nat) (s : Bytes) : Supply :=
  let (blocks, sound) := decodeBlocks encoding s.length (blockSize - mark) s
  { chars := blocks.flatten, blocks := blocks.map List.length, sound }

/-- The supply of a file, in the encoding that a mark at its start names. -/
def supply (s : Bytes) : Supply :=
  match s with
  | 0xFF :: 0xFE :: rest => (Encoding.utf16 true).supply 2 rest
  | 0xFE :: 0xFF :: rest => (Encoding.utf16 false).supply 2 rest
  | 0xEF :: 0xBB :: 0xBF :: rest => Encoding.utf8.supply 3 rest
  | _ => Encoding.utf8.supply 0 s

end DocHarvest.Yaml
