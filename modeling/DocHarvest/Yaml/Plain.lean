import DocHarvest.Config.Value
import DocHarvest.Decimal.Numeral

/-!
# Plain Scalars

A scalar that stands in a YAML document without quotes is read for what it looks like: a
missing value, a truth value, a number, a timestamp or, when it looks like none of these, a
text. Writing asks the same question, so that a text which looks like something else is put
in quotes.

## Main definitions

* `Yaml.integer?`, `Yaml.number?` — the numbers that texts spell.
* `Yaml.resolvePlain` — what a plain scalar stands for.
* `Yaml.looksOtherwise` — whether a text, written plainly, would be taken for something else.
-/

namespace DocHarvest.Yaml

open Numeral (natural? splitSign double? wordBound wordCount)

/-! ### Integers -/

/-- The base that a number's first characters announce, and the digits after them. A single
leading zero announces octal, and stands for itself when nothing follows. -/
def splitBase (s : List Char) : Nat × List Char :=
  match s with
  | '0' :: mark :: digit :: rest =>
    if mark = 'b' || mark = 'B' then (2, digit :: rest)
    else if mark = 'o' || mark = 'O' then (8, digit :: rest)
    else if mark = 'x' || mark = 'X' then (16, digit :: rest)
    else (8, mark :: digit :: rest)
  | '0' :: mark :: [] => (8, [mark])
  | _ => (10, s)

/-- An integer of 64 bits with its sign apart. -/
def signed? (negative : Bool) (magnitude : Nat) : Option Int :=
  if negative then if magnitude ≤ wordBound then some (-magnitude) else none
  else if magnitude < wordBound then some magnitude else none

/-- Digits with an optional sign, in a base that is known. -/
def signedIn? (base : Nat) (s : List Char) : Option Int := do
  let (negative, digits) := splitSign s
  signed? negative (← natural? base digits)

/-- Digits with an optional sign, in the base they announce. -/
def announced? (s : List Char) : Option Int := do
  let (negative, rest) := splitSign s
  let (base, digits) := splitBase rest
  signed? negative (← natural? base digits)

/-- Digits without a sign, in the base they announce. -/
def unsigned? (s : List Char) : Option Int := do
  let (base, digits) := splitBase s
  let n ← natural? base digits
  if n < wordCount then some n else none

/-- A binary or octal number whose sign stands after the mark of the base. -/
def signedAfterMark? (s : List Char) : Option Int :=
  match s with
  | '0' :: 'b' :: rest => signedIn? 2 rest
  | '-' :: '0' :: 'b' :: rest => signedIn? 2 ('-' :: rest)
  | '0' :: 'o' :: rest => signedIn? 8 rest
  | '-' :: '0' :: 'o' :: rest => signedIn? 8 ('-' :: rest)
  | _ => none

/-- The integer that a text spells, if it spells one that fits in 64 bits. -/
def integer? (s : List Char) : Option Int :=
  announced? s <|> unsigned? s

/-! ### What a plain scalar stands for -/

/-- The words for missing values, truth values and special numbers. -/
def words : List (String × Value) :=
  [("", .null), ("~", .null), ("null", .null), ("Null", .null), ("NULL", .null),
    ("true", .bool true), ("True", .bool true), ("TRUE", .bool true),
    ("false", .bool false), ("False", .bool false), ("FALSE", .bool false),
    (".nan", .float .undefined), (".NaN", .float .undefined), (".NAN", .float .undefined),
    (".inf", .float (.infinite false)), (".Inf", .float (.infinite false)),
    (".INF", .float (.infinite false)),
    ("+.inf", .float (.infinite false)), ("+.Inf", .float (.infinite false)),
    ("+.INF", .float (.infinite false)),
    ("-.inf", .float (.infinite true)), ("-.Inf", .float (.infinite true)),
    ("-.INF", .float (.infinite true))]

/-- The value of a word. -/
def word? (s : List Char) : Option Value :=
  (words.find? fun (word, _) => word.toList = s).map Prod.snd

/-- A number written with digits, which underscores may part. -/
def number? (s : List Char) : Option Value :=
  let digits := s.filter (· ≠ '_')
  (integer? digits).map Value.int <|> (double? digits).map Value.float <|>
    (signedAfterMark? digits).map Value.int

/-- Whether every underscore of a text stands between two digits. The flag says whether a digit
came last. -/
def partsDigits : Bool → List Char → Bool
  | _, [] => true
  | afterDigit, '_' :: rest =>
    afterDigit && (rest.head?.map Char.isDigit).getD false && partsDigits false rest
  | _, c :: rest => partsDigits c.isDigit rest

/-- A number that starts with its point. Underscores may part its digits, but stand nowhere
else. -/
def fraction? (s : List Char) : Option Value :=
  if partsDigits false s then (double? (s.filter (· ≠ '_'))).map Value.float else none

/-- The number that a scalar spells when its first character announces one. -/
def numeric? (s : List Char) : Option Value :=
  match s with
  | [] => none
  | c :: _ =>
    if c.isDigit || c = '+' || c = '-' then number? s
    else if c = '.' then fraction? s
    else none

/-- What a plain scalar stands for. -/
def resolvePlain (s : List Char) : Value :=
  (word? s <|> (Timestamp.parse? s).map Value.time <|> numeric? s).getD (.text (utf8Chars s))

/-! ### What a text looks like -/

/-- Words that older readers take for truth values. -/
def oldTruthWords : List String :=
  ["y", "Y", "yes", "Yes", "YES", "on", "On", "ON",
    "n", "N", "no", "No", "NO", "off", "Off", "OFF"]

/-- Whether a text is a run of numbers up to 59 after colons, with an optional fraction. -/
def isSexagesimalTail : List Char → Bool
  | [] => true
  | ':' :: a :: b :: rest =>
    if a.isDigit && b.isDigit then a ≤ '5' && isSexagesimalTail rest
    else a.isDigit && isSexagesimalTail (b :: rest)
  | [':', a] => a.isDigit
  | '.' :: rest => rest.all fun c => c.isDigit || c = '_'
  | _ => false

/-- Whether a text is a number to the base sixty, as older readers know them. -/
def isSexagesimal (s : List Char) : Bool :=
  let rest := (splitSign s).2
  match rest with
  | c :: _ =>
    c.isDigit &&
      (let tail := rest.dropWhile fun c => c.isDigit || c = '_'
      tail.head? = some ':' && isSexagesimalTail tail)
  | [] => false

/-- Whether a value is a text. -/
def isText : Value → Bool
  | .text _ => true
  | _ => false

/-- Whether a text that stands in a document without quotes would be taken for something
else, by this library or by an older reader. -/
def looksOtherwise (s : List Char) : Bool :=
  !isText (resolvePlain s) || isSexagesimal s || oldTruthWords.any fun word => word.toList = s

end DocHarvest.Yaml
