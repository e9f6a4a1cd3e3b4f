import DocHarvest.Decimal.Double

/-!
# Numerals

The numbers that digits spell: natural numbers in any base up to 36, and decimals with a
point and an exponent.

## Main definitions

* `Numeral.natural?` — digits in a base.
* `Numeral.double?` — a decimal with an optional point and exponent.
-/

namespace DocHarvest.Numeral

/-- How many numbers there are of 64 bits. -/
def wordCount : Nat := 18446744073709551616

/-- Numbers of 64 bits with a sign are smaller than this. -/
def wordBound : Nat := 9223372036854775808

/-- The value of a digit or letter in bases up to 36. -/
def digitValue? (c : Char) : Option Nat :=
  if c.isDigit then some (c.toNat - 48)
  else if 'a' ≤ c && c ≤ 'z' then some (c.toNat - 87)
  else if 'A' ≤ c && c ≤ 'Z' then some (c.toNat - 55)
  else none

/-- The value of digits in a base. There has to be a digit, and all have to be smaller than
the base. -/
def natural? (base : Nat) (s : List Char) : Option Nat :=
  if s.isEmpty then none
  else
    s.foldlM
      (fun n c => do
        let d ← digitValue? c
        if d < base then some (n * base + d) else none)
      0

/-- The sign of a number, and what follows it. -/
def splitSign (s : List Char) : Bool × List Char :=
  match s with
  | '-' :: rest => (true, rest)
  | '+' :: rest => (false, rest)
  | _ => (false, s)

/-- The exponent at the end of a number: absent, or a mark with a signed number after it. -/
def exponent? (s : List Char) : Option Int :=
  match s with
  | [] => some 0
  | mark :: rest =>
    if mark = 'e' || mark = 'E' then do
      let (negative, digits) := splitSign rest
      if digits.isEmpty || !digits.all Char.isDigit then none
      let n ← natural? 10 digits
      some (if negative then -n else n)
    else none

/-- The number that a decimal with an optional point and exponent spells, unless it is too
large. There has to be a digit before the exponent, and, with nothing before the point, after
it. -/
def double? (s : List Char) : Option Double := do
  let (negative, rest) := splitSign s
  let whole := rest.takeWhile Char.isDigit
  let rest := rest.dropWhile Char.isDigit
  let (places, rest) :=
    match rest with
    | '.' :: after => (after.takeWhile Char.isDigit, after.dropWhile Char.isDigit)
    | _ => ([], rest)
  if whole.isEmpty && places.isEmpty then none
  let exponent ← exponent? rest
  let digits := (whole ++ places).map fun c => c.toNat - 48
  Double.ofDecimal? negative digits (exponent - places.length)

end DocHarvest.Numeral
