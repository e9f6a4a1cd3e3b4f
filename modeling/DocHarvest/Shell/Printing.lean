import DocHarvest.Decimal.Numeral
import DocHarvest.Shell.Command

/-!
# Printing Commands

What the two commands print that scripts print with: one prints its words with blanks between
them, the other fills them into a format.

## Main definitions

* `Shell.echoed` — the words of an echo.
* `Shell.formatted` — a format with words filled in.
-/

namespace DocHarvest.Shell

/-! ### Escapes -/

/-- The value of octal digits. -/
def octalValue (digits : Chars) : Nat :=
  digits.foldl (fun n c => n * 8 + (c.toNat - 48)) 0

/-- Whether a character is an octal digit. -/
def isOctal (c : Char) : Bool :=
  '0' ≤ c && c ≤ '7'

/-- The character of a byte with a given value, which may be too large. -/
def byteChar (n : Nat) : Char :=
  Char.ofNat (n % 256)

/-- What an escape with one letter stands for. -/
def letterEscape? : Char → Option Char
  | 'a' => some '\x07'
  | 'b' => some '\x08'
  | 'f' => some '\x0c'
  | 'n' => some '\n'
  | 'r' => some '\r'
  | 't' => some '\t'
  | 'v' => some '\x0b'
  | '\\' => some '\\'
  | _ => none

/-- A text with its escapes resolved, in which octal digits follow a zero. The flag says whether an
escape ended all printing. The fuel bounds the number of characters. -/
def unescape : Nat → Chars → Chars × Bool
  | 0, _ => ([], false)
  | fuel + 1, s =>
    let onward (c : Char) (rest : Chars) : Chars × Bool :=
      let (others, ended) := unescape fuel rest
      (c :: others, ended)
    match s with
    | [] => ([], false)
    | '\\' :: 'c' :: _ => ([], true)
    | '\\' :: '0' :: rest =>
      let digits := (rest.take 3).takeWhile isOctal
      onward (byteChar (octalValue digits)) (rest.drop digits.length)
    | '\\' :: c :: rest =>
      match letterEscape? c with
      | some d => onward d rest
      | none => onward '\\' (c :: rest)
    | c :: rest => onward c rest

/-- The words of an echo, with blanks between them and a line end unless that was declined. -/
def echoed (words : List Chars) : Chars :=
  let (declined, words) :=
    match words with
    | ['-', 'n'] :: rest => (true, rest)
    | _ => (false, words)
  let joinedWords := List.intercalate [' '] words
  let (text, ended) := unescape (joinedWords.length + 1) joinedWords
  if declined || ended then text else text ++ ['\n']

/-! ### Formats -/

/-- How a conversion is filled up: the signs before its width, the width, and the precision. -/
structure Layout where
  signs : Chars := []
  width : Nat := 0
  precision? : Option Nat := none
  deriving DecidableEq, Repr

/-- A text filled up with blanks to the width. -/
def Layout.fill (layout : Layout) (s : Chars) : Chars :=
  let blanks := List.replicate (layout.width - s.length) ' '
  if layout.signs.contains '-' then s ++ blanks else blanks ++ s

/-- A number filled up to precision and width. -/
def Layout.number (layout : Layout) (negative : Bool) (stem digits : Chars) : Chars :=
  let sign :=
    if negative then ['-']
    else if layout.signs.contains '+' then ['+']
    else if layout.signs.contains ' ' then [' ']
    else []
  let digits := List.replicate (layout.precision?.getD 0 - digits.length) '0' ++ digits
  if layout.signs.contains '0' && !layout.signs.contains '-' && layout.precision?.isNone then
    let zeros := layout.width - (sign.length + stem.length + digits.length)
    sign ++ stem ++ List.replicate zeros '0' ++ digits
  else layout.fill (sign ++ stem ++ digits)

/-- The integer that an argument spells; the flag says whether it spells one. -/
def integerOf (s : Chars) : Int × Bool :=
  match s with
  | [] => (0, true)
  | '\'' :: c :: _ => (c.toNat, true)
  | '"' :: c :: _ => (c.toNat, true)
  | _ =>
    let (negative, digits) := Numeral.splitSign s
    let n? :=
      match digits with
      | '0' :: 'x' :: rest => Numeral.natural? 16 rest
      | '0' :: c :: rest => Numeral.natural? 8 (c :: rest)
      | _ => Numeral.natural? 10 digits
    match n? with
    | some n => (if negative then -n else n, true)
    | none => (0, false)

/-- What is printed so far, the arguments that are left, and whether all went well and goes on. -/
structure Filling where
  text : Chars := []
  arguments : List Chars
  taken : Bool := false
  fine : Bool := true
  ended : Bool := false
  deriving DecidableEq, Repr

/-- Prints more. -/
def Filling.print (filling : Filling) (s : Chars) : Filling :=
  { filling with text := filling.text ++ s }

/-- Takes the next argument. -/
def Filling.take (filling : Filling) : Chars × Filling :=
  match filling.arguments with
  | [] => ([], { filling with taken := true })
  | argument :: rest => (argument, { filling with arguments := rest, taken := true })

/-- The digits of a number in a base. -/
def digitsIn (base n : Nat) : Chars :=
  Nat.toDigits base n

/-- Fills an argument in where a conversion stands. -/
def Filling.convert (filling : Filling) (layout : Layout) (conversion : Char) : Filling :=
  let (argument, filling) := filling.take
  let cutShort (s : Chars) : Chars :=
    match layout.precision? with
    | some n => s.take n
    | none => s
  let (n, spelled) := integerOf argument
  let numbered (negative : Bool) (stem digits : Chars) : Filling :=
    { filling.print (layout.number negative stem digits) with fine := filling.fine && spelled }
  let unsigned := (n.emod Numeral.wordCount).toNat
  match conversion with
  | 's' => filling.print (layout.fill (cutShort argument))
  | 'c' => filling.print (layout.fill (argument.take 1))
  | 'b' =>
    let (text, ended) := unescape (argument.length + 1) argument
    { filling.print (layout.fill (cutShort text)) with ended }
  | 'd' | 'i' => numbered (n < 0) [] (digitsIn 10 n.natAbs)
  | 'u' => numbered false [] (digitsIn 10 unsigned)
  | 'o' => numbered false (if layout.signs.contains '#' then ['0'] else []) (digitsIn 8 unsigned)
  | 'x' =>
    numbered false (if layout.signs.contains '#' then ['0', 'x'] else []) (digitsIn 16 unsigned)
  | 'X' =>
    numbered false (if layout.signs.contains '#' then ['0', 'X'] else [])
      ((digitsIn 16 unsigned).map Char.toUpper)
  | _ => { filling with fine := false, ended := true }

/-- Reads a width or precision, which an argument may give. -/
def Filling.measure (filling : Filling) (s : Chars) : Nat × Chars × Filling :=
  match s with
  | '*' :: rest =>
    let (argument, filling) := filling.take
    ((integerOf argument).1.toNat, rest, filling)
  | _ =>
    let digits := s.takeWhile Char.isDigit
    ((Numeral.natural? 10 digits).getD 0, s.drop digits.length, filling)

/-- Goes through a format once. The fuel bounds the number of its parts. -/
def Filling.pass : Nat → Chars → Filling → Filling
  | 0, _, filling => filling
  | fuel + 1, format, filling =>
    if filling.ended then filling
    else
      match format with
      | [] => filling
      | '\\' :: 'c' :: _ => { filling with ended := true }
      | '\\' :: c :: rest =>
        let digits := ((c :: rest).take 3).takeWhile isOctal
        if !digits.isEmpty then
          pass fuel ((c :: rest).drop digits.length)
            (filling.print [byteChar (octalValue digits)])
        else
          match letterEscape? c with
          | some d => pass fuel rest (filling.print [d])
          | none => pass fuel (c :: rest) (filling.print ['\\'])
      | '%' :: '%' :: rest => pass fuel rest (filling.print ['%'])
      | '%' :: rest =>
        let signs := rest.takeWhile fun c => ['-', '+', ' ', '0', '#'].contains c
        let (width, rest, filling) := filling.measure (rest.drop signs.length)
        let (precision?, rest, filling) :=
          match rest with
          | '.' :: rest =>
            let (n, rest, filling) := filling.measure rest
            (some n, rest, filling)
          | _ => (none, rest, filling)
        match rest with
        | [] => { filling with fine := false, ended := true }
        | conversion :: rest =>
          pass fuel rest (filling.convert { signs, width, precision? } conversion)
      | c :: rest => pass fuel rest (filling.print [c])

/-- Goes through a format as long as arguments are left that it takes. The fuel bounds the number
of passes. -/
def Filling.passes (format : Chars) : Nat → Filling → Filling
  | 0, filling => filling
  | fuel + 1, filling =>
    let after := Filling.pass (format.length + 1) format { filling with taken := false }
    if after.arguments.isEmpty || !after.taken || after.ended then after
    else passes format fuel after

/-- A format with arguments filled in, and whether all went well. -/
def formatted (format : Chars) (arguments : List Chars) : Chars × Bool :=
  let filling := Filling.passes format (arguments.length + 1) { arguments }
  (filling.text, filling.fine)

end DocHarvest.Shell
