import DocHarvest.Bytes

/-!
# Doubles and Their Shortest Decimals

A double is a mantissa of at most 53 bits times a power of two. Decimal numbers are rounded
to the nearest double, a tie going to the even mantissa; a double is written with the fewest
digits that are rounded back to it, without an exponent. All arithmetic here is exact.

## Main definitions

* `Double` — a floating-point number of double precision.
* `Double.ofDecimal?` — the double nearest to a decimal number.
* `Double.shortest` — the shortest decimal that is rounded to a double.
* `Double.text` — that decimal in positional notation.
-/

namespace DocHarvest

/-- A floating-point number of double precision. A finite one is the mantissa times two to the
power of the exponent. -/
inductive Double
  | finite (negative : Bool) (mantissa : Nat) (exponent : Int)
  | infinite (negative : Bool)
  | undefined
  deriving DecidableEq, Repr

namespace Double

/-- Mantissas are smaller than two to this power. -/
def precision : Nat := 53

/-- Mantissas are smaller than this number. -/
def mantissaBound : Nat := Nat.pow 2 precision

/-- The exponent of the smallest doubles. -/
def leastExponent : Int := -1074

/-- The exponent of the largest doubles. -/
def greatestExponent : Int := 971

/-! ### Rounding -/

/-- A quotient rounded to the nearest natural number, a tie to the even one. -/
def roundDiv (n d : Nat) : Nat :=
  let q := n / d
  let r := n % d
  if d < 2 * r || (2 * r = d && q % 2 = 1) then q + 1 else q

/-- A quotient divided by a power of two, as a quotient. -/
def scale (n d : Nat) (exponent : Int) : Nat × Nat :=
  match exponent with
  | .ofNat e => (n, d * Nat.pow 2 e)
  | .negSucc e => (n * Nat.pow 2 (e + 1), d)

/-- The mantissa and exponent nearest to a positive quotient, unless it is too large. -/
def roundQuotient? (n d : Nat) : Option (Nat × Int) :=
  let size : Int := n.log2 - d.log2
  let low := max (size - precision) leastExponent
  let (n₀, d₀) := scale n d low
  let exponent := if n₀ / d₀ < mantissaBound then low else low + 1
  let (n₁, d₁) := scale n d exponent
  let mantissa := roundDiv n₁ d₁
  let (mantissa, exponent) :=
    if mantissa = mantissaBound then (mantissaBound / 2, exponent + 1) else (mantissa, exponent)
  if greatestExponent < exponent then none else some (mantissa, exponent)

/-- No number with a decimal point more than this many places away from its first digit is
rounded to a finite double other than zero. -/
def farPlace : Int := 400

/-- The double nearest to a decimal number given by its digits and the power of ten they are
multiplied with, unless the number is too large. -/
def ofDecimal? (negative : Bool) (digits : List Nat) (exponent : Int) : Option Double :=
  let significant := digits.dropWhile (· = 0)
  let n := significant.foldl (fun n digit => n * 10 + digit) 0
  let place := significant.length + exponent
  if n = 0 || place < -farPlace then some (finite negative 0 leastExponent)
  else if farPlace < place then none
  else
    let rounded :=
      match exponent with
      | .ofNat e => roundQuotient? (n * Nat.pow 10 e) 1
      | .negSucc e => roundQuotient? n (Nat.pow 10 (e + 1))
    rounded.map fun (m, e) => finite negative m e

/-! ### Shortest decimals -/

/-- Two numbers whose quotient is two to the power `b` divided by ten to the power `p`. -/
def ratio (b p : Int) : Nat × Nat :=
  (Nat.pow 2 b.toNat * Nat.pow 10 (-p).toNat, Nat.pow 2 (-b).toNat * Nat.pow 10 p.toNat)

/-- The multiple of ten to the power `p` next to a double, if it is rounded to that double.
The numbers rounded to it lie between the midpoints to its neighbours. -/
def decimalAt? (mantissa : Nat) (exponent : Int) (p : Int) : Option Nat :=
  let (a, b) := ratio (exponent - 2) p
  let low := 4 * mantissa -
    (if mantissa = mantissaBound / 2 && leastExponent < exponent then 1 else 2)
  let high := 4 * mantissa + 2
  let value := 4 * mantissa * a
  let inside (c : Nat) : Bool :=
    if mantissa % 2 = 0 then low * a ≤ c * b && c * b ≤ high * a
    else low * a < c * b && c * b < high * a
  let below := value / b
  let above := below + 1
  match inside below, inside above with
  | true, true => if value - below * b ≤ above * b - value then some below else some above
  | true, false => some below
  | false, true => some above
  | false, false => none

/-- Searches for the shortest decimal, from a power of ten downwards. -/
def searchDecimal (mantissa : Nat) (exponent : Int) : Nat → Int → Nat × Int
  | 0, p => (0, p)
  | fuel + 1, p =>
    match decimalAt? mantissa exponent p with
    | some c => (c, p)
    | none => searchDecimal mantissa exponent fuel (p - 1)

/-- A decimal with the fewest digits among those that are rounded to a positive double, the
nearest of them: its digits and the power of ten they are multiplied with. -/
def shortest (mantissa : Nat) (exponent : Int) : Nat × Int :=
  let start := (mantissa.log2 + exponent) * 30103 / 100000 + 2
  searchDecimal mantissa exponent 24 start

/-! ### Text -/

/-- Digits times a power of ten, without an exponent. -/
def positional (digits : Nat) (p : Int) : Bytes :=
  match p with
  | .ofNat zeros => decimalNat digits ++ List.replicate zeros 48
  | .negSucc e =>
    let places := e + 1
    let text := decimalNat digits
    let text := List.replicate (places + 1 - text.length) 48 ++ text
    text.take (text.length - places) ++ utf8 "." ++ text.drop (text.length - places)

/-- A double with the fewest digits that identify it, in positional notation. -/
def text : Double → Bytes
  | undefined => utf8 "NaN"
  | infinite negative => utf8 (if negative then "-Inf" else "+Inf")
  | finite negative mantissa exponent =>
    let sign := if negative then utf8 "-" else []
    if mantissa = 0 then sign ++ utf8 "0"
    else
      let (digits, p) := shortest mantissa exponent
      sign ++ positional digits p

end Double

end DocHarvest
