import DocHarvest.Bytes

/-!
# Timestamps

A day of the calendar with a time and a distance from universal time, as configuration files
spell it and as it is shown.

## Main definitions

* `Timestamp` — a day, a time and an offset.
* `Timestamp.parse?` — the timestamp that a text spells.
* `Timestamp.text` — a timestamp as text.
-/

namespace DocHarvest

/-- A day, a time of day, and the offset from universal time in minutes. -/
structure Timestamp where
  year : Nat
  month : Nat
  day : Nat
  hour : Nat := 0
  minute : Nat := 0
  second : Nat := 0
  nanosecond : Nat := 0
  offset : Int := 0
  deriving DecidableEq, Repr

namespace Timestamp

/-! ### The calendar -/

/-- Whether a year has a leap day. -/
def isLeap (year : Nat) : Bool :=
  year % 4 = 0 && (year % 100 ≠ 0 || year % 400 = 0)

/-- The number of days in a month. -/
def daysIn (year month : Nat) : Nat :=
  if month = 2 then if isLeap year then 29 else 28
  else if month = 4 || month = 6 || month = 9 || month = 11 then 30
  else 31

/-- Whether day and time exist. -/
def isValid (t : Timestamp) : Bool :=
  1 ≤ t.month && t.month ≤ 12 && 1 ≤ t.day && t.day ≤ daysIn t.year t.month &&
    t.hour < 24 && t.minute < 60 && t.second < 60

/-! ### Reading -/

/-- The value of decimal digits. -/
def number (digits : List Char) : Nat :=
  digits.foldl (fun n c => n * 10 + (c.toNat - 48)) 0

/-- One or two digits. -/
def digits12? : List Char → Option (Nat × List Char)
  | a :: b :: rest =>
    if !a.isDigit then none
    else if b.isDigit then some (number [a, b], rest)
    else some (number [a], b :: rest)
  | [a] => if a.isDigit then some (number [a], []) else none
  | [] => none

/-- Exactly two digits. -/
def digits2? : List Char → Option (Nat × List Char)
  | a :: b :: rest => if a.isDigit && b.isDigit then some (number [a, b], rest) else none
  | _ => none

/-- A given character. -/
def expect? (c : Char) : List Char → Option (List Char)
  | d :: rest => if d = c then some rest else none
  | [] => none

/-- A fraction of a second, if there is one, in nanoseconds. Digits after the ninth are
ignored. -/
def fraction (s : List Char) : Nat × List Char :=
  match s with
  | mark :: first :: _ =>
    if (mark = '.' || mark = ',') && first.isDigit then
      let digits := (s.drop 1).takeWhile Char.isDigit
      let kept := digits.take 9
      (number (kept ++ List.replicate (9 - kept.length) '0'), (s.drop 1).dropWhile Char.isDigit)
    else (0, s)
  | _ => (0, s)

/-- The date at the start of a text: a year of four digits, a month and a day. -/
def date? (s : List Char) : Option (Timestamp × List Char) := do
  let year := s.takeWhile Char.isDigit
  if year.length ≠ 4 then none
  let rest ← expect? '-' (s.drop 4)
  let (month, rest) ← digits12? rest
  let rest ← expect? '-' rest
  let (day, rest) ← digits12? rest
  some ({ year := number year, month, day }, rest)

/-- The time at the start of a text, added to a date. -/
def time? (t : Timestamp) (s : List Char) : Option (Timestamp × List Char) := do
  let (hour, rest) ← digits12? s
  let rest ← expect? ':' rest
  let (minute, rest) ← digits12? rest
  let rest ← expect? ':' rest
  let (second, rest) ← digits12? rest
  let (nanosecond, rest) := fraction rest
  some ({ t with hour, minute, second, nanosecond }, rest)

/-- The offset that is all of a text: a `Z`, or a sign with hours and minutes. -/
def zone? (t : Timestamp) : List Char → Option Timestamp
  | ['Z'] => some t
  | sign :: rest => do
    let (hours, rest) ← digits2? rest
    let rest ← expect? ':' rest
    let (minutes, rest) ← digits2? rest
    if !rest.isEmpty || 24 < hours || 60 < minutes then none
    let offset : Int := hours * 60 + minutes
    if sign = '+' then some { t with offset }
    else if sign = '-' then some { t with offset := -offset }
    else none
  | [] => none

/-- The timestamp that a text spells: a date alone, a date and a time with blanks between
them, or a date and a time with a letter between them and an offset after them. -/
def parse? (s : List Char) : Option Timestamp := do
  let (date, rest) ← date? s
  let t ←
    match rest with
    | [] => some date
    | ' ' :: rest => do
      let (t, rest) ← time? date (rest.dropWhile (· = ' '))
      if rest.isEmpty then some t else none
    | 'T' :: rest | 't' :: rest => do
      let (t, rest) ← time? date rest
      zone? t rest
    | _ => none
  if t.isValid then some t else none

/-! ### Text -/

/-- A number with leading zeros. -/
def padded (width n : Nat) : Bytes :=
  let digits := decimalNat n
  List.replicate (width - digits.length) 48 ++ digits

/-- An offset as sign, hours and minutes. -/
def offsetText (offset : Int) : Bytes :=
  utf8 (if offset < 0 then "-" else "+") ++ padded 2 (offset.natAbs / 60) ++
    padded 2 (offset.natAbs % 60)

/-- The fraction of a second, without trailing zeros. -/
def fractionText (nanosecond : Nat) : Bytes :=
  if nanosecond = 0 then []
  else
    let digits := padded 9 nanosecond
    utf8 "." ++ (digits.reverse.dropWhile (· = 48)).reverse

/-- A timestamp as text. The zone has no name unless it is that of universal time. -/
def text (t : Timestamp) : Bytes :=
  padded 4 t.year ++ utf8 "-" ++ padded 2 t.month ++ utf8 "-" ++ padded 2 t.day ++ utf8 " " ++
    padded 2 t.hour ++ utf8 ":" ++ padded 2 t.minute ++ utf8 ":" ++ padded 2 t.second ++
    fractionText t.nanosecond ++ utf8 " " ++ offsetText t.offset ++ utf8 " " ++
    (if t.offset = 0 then utf8 "UTC" else offsetText t.offset)

end Timestamp

end DocHarvest
