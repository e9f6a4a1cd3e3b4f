import DocHarvest.Bytes

/-!
# Base64

Bytes written with letters, digits and two signs, four characters for three bytes. Line breaks
between the characters do not count, and the last four are filled up with equals signs.
-/

namespace DocHarvest.Base64

/-- The value of a character, between 0 and 63. -/
def sextet? (b : UInt8) : Option Nat :=
  let n := b.toNat
  if 65 ≤ n && n ≤ 90 then some (n - 65)
  else if 97 ≤ n && n ≤ 122 then some (n - 71)
  else if 48 ≤ n && n ≤ 57 then some (n + 4)
  else if n = 43 then some 62
  else if n = 47 then some 63
  else none

/-- The sign that fills up the last four characters. -/
def filler : UInt8 := 61

/-- The bytes that characters stand for, without line breaks between them. -/
def groups? : Bytes → Option Bytes
  | [] => some []
  | a :: b :: c :: d :: rest => do
    let w ← sextet? a
    let x ← sextet? b
    let first := UInt8.ofNat (w * 4 + x / 16)
    if c = filler && d = filler && rest.isEmpty then some [first]
    else
      let y ← sextet? c
      let second := UInt8.ofNat (x % 16 * 16 + y / 4)
      if d = filler && rest.isEmpty then some [first, second]
      else
        let z ← sextet? d
        let others ← groups? rest
        some (first :: second :: UInt8.ofNat (y % 4 * 64 + z) :: others)
  | _ => none

/-- The bytes that a text stands for. -/
def decode? (s : Bytes) : Option Bytes :=
  groups? (s.filter fun b => b ≠ Byte.lineFeed && b ≠ Byte.carriageReturn)

end DocHarvest.Base64
