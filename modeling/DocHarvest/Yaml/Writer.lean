import DocHarvest.Bytes.Utf8
import DocHarvest.Settings
import DocHarvest.Yaml.Char
import DocHarvest.Yaml.Plain

/-!
# Writing Settings as YAML

Settings are written as two sections of lines, `name: text`. A text is written without quotes
where it can be read back that way; a text of several lines as a literal block; and every
other text in single quotes, or in double quotes when escapes are needed. Bytes that are no
text are written in base 64.

## Main definitions

* `Yaml.Shape` — what matters about a text for the way it is written.
* `Yaml.Style` — the ways of writing a text; `Yaml.style` chooses one.
* `Yaml.written` — a text in its style.
* `Settings.yaml` — settings as a document.
-/

namespace DocHarvest.Yaml

/-! ### The shape of a text -/

/-- Whether a text, written without quotes, would start with something that means more. -/
def startsWithIndicator (s : List Char) : Bool :=
  match s with
  | [] => false
  | c :: rest =>
    let apart := rest.isEmpty || (rest.head?.map isBlank).getD false
    s.take 3 = ['-', '-', '-'] || s.take 3 = ['.', '.', '.'] ||
      ['#', ',', '[', ']', '\x7b', '\x7d', '&', '*', '!', '|', '>', '\'', '"', '%', '@',
        '\x60'].contains c ||
      ((c = '?' || c = ':' || c = '-') && apart)

/-- Whether a text holds, after its first character, a colon that ends a key or a hash that
starts a comment. The flag says whether a blank stands just before. -/
def holdsIndicator (afterBlank : Bool) : List Char → Bool
  | [] => false
  | c :: rest =>
    (c = ':' && (rest.isEmpty || (rest.head?.map isBlank).getD false)) ||
      (c = '#' && afterBlank) ||
      holdsIndicator (isBlank c || isBreak c || c = '\x00') rest

/-- Whether the first of two neighbours is of one kind and the second of another. -/
def holdsPair (first second : Char → Bool) : List Char → Bool
  | a :: b :: rest => (first a && second b) || holdsPair first second (b :: rest)
  | _ => false

/-- What matters about a text for the way it is written. -/
structure Shape where
  indicator : Bool
  special : Bool
  tab : Bool
  lineBreak : Bool
  edge : Bool
  trailingSpace : Bool
  breakSpace : Bool
  spaceBreak : Bool
  deriving DecidableEq, Repr

/-- The shape of a text. -/
def shape (s : List Char) : Shape where
  indicator := startsWithIndicator s ||
    holdsIndicator ((s.head?.map fun c => isBlank c || isBreak c || c = '\x00').getD false)
      (s.drop 1)
  special := s.any fun c => !isPlain c && c ≠ '\t'
  tab := s.contains '\t'
  lineBreak := s.any isBreak
  edge := (s.head?.map fun c => c = ' ' || isBreak c).getD false ||
    (s.getLast?.map fun c => c = ' ' || isBreak c).getD false
  trailingSpace := s.getLast? = some ' '
  breakSpace := holdsPair isBreak (· = ' ') s
  spaceBreak := holdsPair (· = ' ') isBreak s

/-! ### Styles -/

/-- The ways of writing a text. -/
inductive Style
  | plain
  | singleQuoted
  | doubleQuoted
  | literal
  deriving DecidableEq, Repr

/-- A text in quotes, in single ones where no escape is needed. -/
def quotedStyle (t : Shape) : Style :=
  if t.breakSpace || t.spaceBreak || t.tab || t.special then .doubleQuoted else .singleQuoted

/-- The style of a text. A text with line feeds becomes a literal block unless that would
lose something. A text that looks like something else is put in double quotes. -/
def style (s : List Char) : Style :=
  let t := shape s
  if s.contains '\n' then
    if t.trailingSpace || t.spaceBreak || t.special then .doubleQuoted else .literal
  else if looksOtherwise s then .doubleQuoted
  else if t.edge || t.breakSpace || t.spaceBreak || t.tab || t.special || t.lineBreak ||
      t.indicator then
    quotedStyle t
  else .plain

/-! ### Texts in their styles -/

/-- The upper-case hexadecimal digits of a number. -/
def upperHex (width n : Nat) : List Char :=
  let digits := (Nat.toDigits 16 n).map Char.toUpper
  List.replicate (width - digits.length) '0' ++ digits

/-- A character in double quotes, escaped always or only where it has to be. -/
def escaped (always : Bool) (c : Char) : List Char :=
  if !always && isPlain c && !isBreak c && c ≠ '"' && c ≠ '\\' then [c]
  else
    '\\' ::
      match c with
      | '\x00' => ['0']
      | '\x07' => ['a']
      | '\x08' => ['b']
      | '\t' => ['t']
      | '\n' => ['n']
      | '\x0b' => ['v']
      | '\x0c' => ['f']
      | '\r' => ['r']
      | '\x1b' => ['e']
      | '"' => ['"']
      | '\\' => ['\\']
      | '\x85' => ['N']
      | '\xa0' => ['_']
      | '\u2028' => ['L']
      | '\u2029' => ['P']
      | _ =>
        if c.toNat ≤ 0xFF then 'x' :: upperHex 2 c.toNat
        else if c.toNat ≤ 0xFFFF then 'u' :: upperHex 4 c.toNat
        else 'U' :: upperHex 8 c.toNat

/-- The columns that one level of nesting takes. -/
def step : Nat := 4

/-- The beginning of a line at a level of nesting. -/
def indentation (level : Nat) : List Char :=
  List.replicate (level * step) ' '

/-- Text over several lines, each of which starts with the indentation of a level. The flag says
whether a line has just begun. -/
def indentLines (level : Nat) (fresh : Bool) : List Char → List Char
  | [] => []
  | c :: rest =>
    if isBreak c then c :: indentLines level true rest
    else (if fresh then indentation level else []) ++ c :: indentLines level false rest

/-- Text between single quotes, where a quote is written twice. -/
def singleQuoted (level : Nat) (s : List Char) : List Char :=
  '\'' :: indentLines level false (s.flatMap fun c => if c = '\'' then ['\'', '\''] else [c]) ++
    ['\'']

/-- The indication of a block's indentation, needed when the text does not start with a
character that shows it. -/
def indentationMark (s : List Char) : List Char :=
  match s with
  | c :: _ => if c = ' ' || isBreak c then Nat.toDigits 10 step else []
  | [] => []

/-- The indication of what follows a block's last line: nothing, one line break, or all of
them. -/
def chompingMark (s : List Char) : List Char :=
  match s.reverse with
  | [] => ['-']
  | last :: others =>
    if !isBreak last then ['-']
    else
      match others with
      | [] => ['+']
      | before :: _ => if isBreak before then ['+'] else []

/-- A literal block: the line of its marks, and the lines of the text. -/
def literalBlock (level : Nat) (s : List Char) : List Char :=
  '|' :: indentationMark s ++ chompingMark s ++ '\n' :: indentLines level true s

/-- Text between double quotes. After a byte order mark at its start all of it is escaped. -/
def doubleQuoted (s : List Char) : List Char :=
  '"' :: s.flatMap (escaped (s.head? = some byteOrderMark)) ++ ['"']

/-- A text as the value at a level of nesting. -/
def written (level : Nat) (s : List Char) : List Char :=
  match style s with
  | .plain => s
  | .singleQuoted => singleQuoted level s
  | .doubleQuoted => doubleQuoted s
  | .literal => literalBlock level s

/-- Ends a line, unless the text has just ended one. -/
def endLine (s : List Char) : List Char :=
  if (s.getLast?.map isBreak).getD false then s else s ++ ['\n']

/-! ### Base 64 -/

/-- The digits to the base 64. -/
def base64Digits : List Char :=
  "ABCDEFGHIJKLMNOPQRSTUVWXYZabcdefghijklmnopqrstuvwxyz0123456789+/".toList

/-- A digit to the base 64. -/
def base64Digit (n : Nat) : Char :=
  base64Digits.getD (n % 64) 'A'

/-- Bytes in base 64. -/
def base64 : Bytes → List Char
  | [] => []
  | [a] =>
    let n := a.toNat * 65536
    [base64Digit (n / 262144), base64Digit (n / 4096), '=', '=']
  | [a, b] =>
    let n := a.toNat * 65536 + b.toNat * 256
    [base64Digit (n / 262144), base64Digit (n / 4096), base64Digit (n / 64), '=']
  | a :: b :: c :: rest =>
    let n := a.toNat * 65536 + b.toNat * 256 + c.toNat
    base64Digit (n / 262144) :: base64Digit (n / 4096) :: base64Digit (n / 64) ::
      base64Digit n :: base64 rest

/-- The number of base 64 digits on a line. -/
def base64Line : Nat := 70

/-- Digits cut into lines, each with its end. The fuel bounds the number of lines. -/
def cutLines : Nat → List Char → List Char
  | 0, s => s
  | fuel + 1, s =>
    if s.isEmpty then []
    else s.take base64Line ++ '\n' :: cutLines fuel (s.drop base64Line)

/-- Bytes in base 64, on lines of their own when one line does not hold them. -/
def base64Text (s : Bytes) : List Char :=
  let digits := base64 s
  if digits.length < base64Line then digits else cutLines digits.length digits

/-- A byte string as the value at a level of nesting. -/
def writtenBytes (level : Nat) (s : Bytes) : List Char :=
  match Utf8.chars? s with
  | some cs => written level cs
  | none =>
    let text := base64Text s
    "!!binary ".toList ++ if text.contains '\n' then literalBlock level text else text

end DocHarvest.Yaml

namespace DocHarvest.Settings

open Yaml in
/-- The line or lines of one setting. -/
def yamlEntry (settings : Settings) (key : Key) : List Char :=
  endLine (indentation 1 ++ key.name.toList ++ ':' :: ' ' :: writtenBytes 2 (settings.get key))

/-- Settings as a YAML document. -/
def yaml (settings : Settings) : List Char :=
  let part (group : Key.Section) (keys : List Key) :=
    group.name.toList ++ ':' :: '\n' :: keys.flatMap settings.yamlEntry
  part .formatter Key.ofFormatter ++ part .catalog Key.ofCatalog

end DocHarvest.Settings
