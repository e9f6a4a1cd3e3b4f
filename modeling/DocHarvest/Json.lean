import DocHarvest.Bytes.Utf8
import DocHarvest.Config.Value
import DocHarvest.Decimal.Numeral

/-!
# JSON Documents

A JSON text and the value it stands for. Of several fields with one name the last counts,
every number is a floating-point number, and bytes or escapes that spell no character are read
as the replacement character.

## Main definitions

* `Json.readString` — a text in quotes.
* `Json.readValue` — the value at the start of some bytes.
* `Json.fields?` — the fields of the object that a file holds.
-/

namespace DocHarvest.Json

/-! ### Marks -/

/-- The byte between two items. -/
@[match_pattern] abbrev comma : UInt8 := 44
/-- The byte between a name and its value. -/
@[match_pattern] abbrev colon : UInt8 := 58
/-- The byte that starts a list. -/
@[match_pattern] abbrev openBracket : UInt8 := 91
/-- The byte that ends a list. -/
@[match_pattern] abbrev closeBracket : UInt8 := 93
/-- The byte that starts an object. -/
@[match_pattern] abbrev openBrace : UInt8 := 123
/-- The byte that ends an object. -/
@[match_pattern] abbrev closeBrace : UInt8 := 125
/-- The letter after the backslash of an escape in hexadecimal digits. -/
@[match_pattern] abbrev letterU : UInt8 := 117
/-- The digit zero. -/
@[match_pattern] abbrev zero : UInt8 := 48
/-- The decimal point. -/
@[match_pattern] abbrev point : UInt8 := 46
/-- The sign of a positive number. -/
@[match_pattern] abbrev plus : UInt8 := 43
/-- The sign of a negative number. -/
@[match_pattern] abbrev minus : UInt8 := 45

/-- Whether a byte may stand between the parts of a document. -/
def isBlank (b : UInt8) : Bool :=
  b = Byte.space || b = Byte.tab || b = Byte.lineFeed || b = Byte.carriageReturn

/-- What follows the blanks. -/
def skipBlanks (s : Bytes) : Bytes :=
  s.dropWhile isBlank

/-! ### Texts -/

/-- The value of four hexadecimal digits. -/
def unit? (a b c d : UInt8) : Option Nat :=
  let digit (b : UInt8) : Option Char :=
    if b < 0x80 then some (Char.ofNat b.toNat) else none
  ([a, b, c, d].mapM digit).bind (Numeral.natural? 16)

/-- What an escape with one letter stands for. -/
def escaped? (b : UInt8) : Option UInt8 :=
  match Char.ofNat b.toNat with
  | '"' => some b
  | '\\' => some b
  | '/' => some b
  | 'b' => some 8
  | 'f' => some 12
  | 'n' => some 10
  | 'r' => some 13
  | 't' => some 9
  | _ => none

/-- Whether a unit is the first half of a pair. -/
def isHigh (n : Nat) : Bool :=
  0xD800 ≤ n && n < 0xDC00

/-- Whether a unit is the second half of a pair. -/
def isLow (n : Nat) : Bool :=
  0xDC00 ≤ n && n < 0xE000

/-- The character of a unit that is no half of a pair. -/
def charOfUnit (n : Nat) : Char :=
  if isHigh n || isLow n then '\ufffd' else Char.ofNat n

/-- The second half of a pair at the start of some bytes. -/
def lowHalf? : Bytes → Option (Nat × Bytes)
  | Byte.backslash :: letterU :: a :: b :: c :: d :: rest =>
    match unit? a b c d with
    | some n => if isLow n then some (n, rest) else none
    | none => none
  | _ => none

/-- Reads the text in quotes whose opening quote has been read. The fuel bounds the number of
characters. -/
def readString : Nat → Bytes → Option (Bytes × Bytes)
  | 0, _ => none
  | fuel + 1, s =>
    let onward (text rest : Bytes) :=
      (readString fuel rest).map fun (others, rest) => (text ++ others, rest)
    match s with
    | [] => none
    | Byte.doubleQuote :: rest => some ([], rest)
    | Byte.backslash :: letterU :: a :: b :: c :: d :: rest =>
      match unit? a b c d with
      | none => none
      | some n =>
        match isHigh n, lowHalf? rest with
        | true, some (low, rest) =>
          onward (utf8Chars [Char.ofNat (0x10000 + (n - 0xD800) * 0x400 + (low - 0xDC00))]) rest
        | _, _ => onward (utf8Chars [charOfUnit n]) rest
    | Byte.backslash :: b :: rest => (escaped? b).bind fun b => onward [b] rest
    | b :: rest => if b < 0x20 then none else onward [b] rest

/-- A text with every stray byte replaced. -/
def cleaned (s : Bytes) : Bytes :=
  utf8Chars (Utf8.charsLossy s)

/-! ### Numbers -/

/-- The digits at the start of some bytes; there has to be one. -/
def readDigits (s : Bytes) : Option (Bytes × Bytes) :=
  let digits := s.takeWhile Byte.isDigit
  if digits.isEmpty then none else some (digits, s.drop digits.length)

/-- The digits before the point, which do not start with a zero unless it is the only one. -/
def readWhole (s : Bytes) : Option (Bytes × Bytes) :=
  match s with
  | zero :: rest => some ([zero], rest)
  | _ => readDigits s

/-- A point with digits after it, if there is one. -/
def readPlaces (s : Bytes) : Option (Bytes × Bytes) :=
  match s with
  | point :: rest => (readDigits rest).map fun (digits, rest) => (point :: digits, rest)
  | _ => some ([], s)

/-- An exponent, if there is one. -/
def readExponent (s : Bytes) : Option (Bytes × Bytes) :=
  match s with
  | mark :: rest =>
    if mark = 0x65 || mark = 0x45 then
      let (sign, rest) :=
        match rest with
        | plus :: rest => ([plus], rest)
        | minus :: rest => ([minus], rest)
        | _ => ([], rest)
      (readDigits rest).map fun (digits, rest) => (mark :: sign ++ digits, rest)
    else some ([], s)
  | [] => some ([], s)

/-- Reads a number. One that is too large is refused. -/
def readNumber (s : Bytes) : Option (Value × Bytes) := do
  let (sign, rest) :=
    match s with
    | minus :: rest => ([minus], rest)
    | _ => ([], s)
  let (whole, rest) ← readWhole rest
  let (places, rest) ← readPlaces rest
  let (exponent, rest) ← readExponent rest
  let numeral := sign ++ whole ++ places ++ exponent
  let x ← Numeral.double? (numeral.map fun b => Char.ofNat b.toNat)
  some (.float x, rest)

/-! ### Values -/

/-- The words that stand for values. -/
def words : List (Bytes × Value) :=
  [(utf8 "null", .null), (utf8 "true", .bool true), (utf8 "false", .bool false)]

/-- Reads a word that stands for a value. -/
def readWord (s : Bytes) : Option (Value × Bytes) :=
  words.findSome? fun (word, value) => (Bytes.dropStem? word s).map (value, ·)

/-- Objects and lists may not be nested deeper than this. -/
def maxDepth : Nat := 10000

mutual

/-- Reads the value at the start of some bytes, which may be nested as deep as the first number
says. The fuel bounds the depth of the recursion. -/
def readValue (depth : Nat) : Nat → Bytes → Option (Value × Bytes)
  | 0, _ => none
  | fuel + 1, s =>
    match depth, skipBlanks s with
    | _, Byte.doubleQuote :: rest =>
      (readString (rest.length + 1) rest).map fun (text, rest) => (.text (cleaned text), rest)
    | depth + 1, openBracket :: rest =>
      match skipBlanks rest with
      | closeBracket :: rest => some (.list [], rest)
      | rest => (readItems depth fuel rest).map fun (items, rest) => (.list items, rest)
    | depth + 1, openBrace :: rest =>
      match skipBlanks rest with
      | closeBrace :: rest => some (.table [], rest)
      | rest => (readFields depth [] fuel rest).map fun (fields, rest) => (.table fields, rest)
    | _, s => (readWord s).or (readNumber s)

/-- Reads the items of a list. -/
def readItems (depth : Nat) : Nat → Bytes → Option (List Value × Bytes)
  | 0, _ => none
  | fuel + 1, s =>
    match readValue depth fuel s with
    | none => none
    | some (value, rest) =>
      match skipBlanks rest with
      | comma :: rest =>
        (readItems depth fuel rest).map fun (values, rest) => (value :: values, rest)
      | closeBracket :: rest => some ([value], rest)
      | _ => none

/-- Reads the fields of an object. -/
def readFields (depth : Nat) (fields : Fields) : Nat → Bytes → Option (Fields × Bytes)
  | 0, _ => none
  | fuel + 1, s =>
    match skipBlanks s with
    | Byte.doubleQuote :: rest =>
      match readString (rest.length + 1) rest with
      | none => none
      | some (key, rest) =>
        match skipBlanks rest with
        | colon :: rest =>
          match readValue depth fuel rest with
          | none => none
          | some (value, rest) =>
            let fields := fields.set (.text (cleaned key)) value
            match skipBlanks rest with
            | comma :: rest => readFields depth fields fuel rest
            | closeBrace :: rest => some (fields, rest)
            | _ => none
        | _ => none
    | _ => none

end

/-- The value of a document. -/
def value? (s : Bytes) : Option Value :=
  match readValue maxDepth (s.length + 1) s with
  | some (value, rest) => if (skipBlanks rest).isEmpty then some value else none
  | none => none

/-- The fields of the object that a file holds. A missing value counts as no fields. -/
def fields? (s : Bytes) : Option Fields :=
  match value? s with
  | some (.table fields) => some fields
  | some .null => some []
  | _ => none

end DocHarvest.Json
