import DocHarvest.Decimal.Numeral
import DocHarvest.Shell.Command

/-!
# Shell Arithmetic

The integers that arithmetic expressions come to. Numbers have 64 bits, and names stand for the
values of variables.

## Main definitions

* `Shell.Arithmetic.evaluate?` — the value of an expression.
-/

namespace DocHarvest.Shell.Arithmetic

/-- A token of an expression. -/
inductive Token
  | number (n : Int)
  | name (name : Chars)
  | sign (sign : String)
  deriving DecidableEq, Repr

/-- The signs of expressions, longer ones before their beginnings. -/
def signs : List String :=
  ["<<=", ">>=", "&&", "||", "==", "!=", "<=", ">=", "<<", ">>", "+=", "-=", "*=", "/=", "%=",
    "+", "-", "*", "/", "%", "(", ")", "<", ">", "=", "!", "~", "&", "|", "^", "?", ":"]

/-- The number that digits spell: decimal, or octal or hexadecimal by how they start. -/
def number? (s : Chars) : Option Int :=
  let n? :=
    match s with
    | '0' :: 'x' :: digits => Numeral.natural? 16 digits
    | '0' :: 'X' :: digits => Numeral.natural? 16 digits
    | '0' :: c :: digits => Numeral.natural? 8 (c :: digits)
    | _ => Numeral.natural? 10 s
  n?.map Int.ofNat

/-- The tokens of an expression. The fuel bounds their number. -/
def tokens? : Nat → Chars → Option (List Token)
  | 0, _ => some []
  | fuel + 1, s =>
    match s with
    | [] => some []
    | c :: rest =>
      if c = ' ' || c = '\t' || c = '\n' then tokens? fuel rest
      else if c.isDigit then do
        let numeral := s.takeWhile Char.isAlphanum
        some (.number (← number? numeral) :: (← tokens? fuel (s.drop numeral.length)))
      else if isNameStart c then do
        let name := s.takeWhile isNameChar
        some (.name name :: (← tokens? fuel (s.drop name.length)))
      else
        match signs.find? fun sign => sign.toList.isPrefixOf s with
        | some sign => do some (.sign sign :: (← tokens? fuel (s.drop sign.length)))
        | none => none

/-- The values of variables, of which an expression can set some. -/
abbrev Bindings := List (Chars × Chars)

/-- A number as text. -/
def digits (n : Int) : Chars :=
  Chars.ofBytes (decimal n)

/-- The value of a variable; one that is not set counts as zero. -/
def valueOf? (bindings : Bindings) (name : Chars) : Option Int :=
  match (bindings.lookup name).getD [] with
  | [] => some 0
  | '-' :: digits => (number? digits).map (- ·)
  | digits => number? digits

/-- How strongly a sign between two numbers binds. -/
def strength? : String → Option Nat
  | "||" => some 1
  | "&&" => some 2
  | "|" => some 3
  | "^" => some 4
  | "&" => some 5
  | "==" | "!=" => some 6
  | "<" | "<=" | ">" | ">=" => some 7
  | "<<" | ">>" => some 8
  | "+" | "-" => some 9
  | "*" | "/" | "%" => some 10
  | _ => none

/-- One for what holds, zero for what does not. -/
def truth (b : Bool) : Int :=
  if b then 1 else 0

/-- A number in 64 bits. -/
def wrap (n : Int) : Int :=
  n.bmod Numeral.wordCount

/-- An operation on the bits of two numbers. -/
def onBits (f : Nat → Nat → Nat) (a b : Int) : Int :=
  wrap (f (a.emod Numeral.wordCount).toNat (b.emod Numeral.wordCount).toNat)

/-- The value of two numbers with a sign between them. Nothing can be divided by zero. -/
def combine? (sign : String) (a b : Int) : Option Int :=
  match sign with
  | "||" => some (truth (a ≠ 0 || b ≠ 0))
  | "&&" => some (truth (a ≠ 0 && b ≠ 0))
  | "|" => some (onBits Nat.lor a b)
  | "^" => some (onBits Nat.xor a b)
  | "&" => some (onBits Nat.land a b)
  | "==" => some (truth (a = b))
  | "!=" => some (truth (a ≠ b))
  | "<" => some (truth (a < b))
  | "<=" => some (truth (a ≤ b))
  | ">" => some (truth (b < a))
  | ">=" => some (truth (b ≤ a))
  | "<<" => some (wrap (a * Nat.pow 2 (b.emod 64).toNat))
  | ">>" => some (a.fdiv (Nat.pow 2 (b.emod 64).toNat))
  | "+" => some (wrap (a + b))
  | "-" => some (wrap (a - b))
  | "*" => some (wrap (a * b))
  | "/" => if b = 0 then none else some (wrap (a.tdiv b))
  | "%" => if b = 0 then none else some (wrap (a.tmod b))
  | _ => none

/-- Sets a variable. -/
def assign (bindings : Bindings) (name value : Chars) : Bindings :=
  (name, value) :: bindings.filter fun (other, _) => other ≠ name

mutual

/-- Reads an expression: an assignment, or a sum of what binds at least as strongly as given. The
fuel bounds the depth of the recursion here and below. -/
def expression? (bindings : Bindings) :
    Nat → List Token → Option (Int × Bindings × List Token)
  | 0, _ => none
  | fuel + 1, tokens =>
    match tokens with
    | .name name :: .sign "=" :: rest =>
      (expression? bindings fuel rest).map fun (n, bindings, rest) =>
        (n, assign bindings name (digits n), rest)
    | .name name :: .sign sign :: rest =>
      let plain := String.ofList (sign.toList.dropLast)
      if sign.toList.getLast? = some '=' && (strength? sign).isNone then
        match expression? bindings fuel rest, valueOf? bindings name with
        | some (n, bindings, rest), some old =>
          (combine? plain old n).map fun n => (n, assign bindings name (digits n), rest)
        | _, _ => none
      else conditional? bindings fuel tokens
    | _ => conditional? bindings fuel tokens

/-- Reads an expression that may choose between two others. -/
def conditional? (bindings : Bindings) :
    Nat → List Token → Option (Int × Bindings × List Token)
  | 0, _ => none
  | fuel + 1, tokens =>
    match operand? bindings fuel tokens with
    | none => none
    | some (first, bindings, rest) =>
      match operation? 1 first bindings fuel rest with
      | some (condition, bindings, .sign "?" :: rest) =>
        match expression? bindings fuel rest with
        | some (yes, bindings, .sign ":" :: rest) =>
          (expression? bindings fuel rest).map fun (no, bindings, rest) =>
            (if condition ≠ 0 then yes else no, bindings, rest)
        | _ => none
      | other => other

/-- Reads signs and operands after a first operand, as long as the signs bind at least as strongly
as given. -/
def operation? (least : Nat) (first : Int) (bindings : Bindings) :
    Nat → List Token → Option (Int × Bindings × List Token)
  | 0, _ => none
  | fuel + 1, tokens =>
    match tokens with
    | .sign sign :: rest =>
      match strength? sign with
      | none => some (first, bindings, tokens)
      | some strength =>
        if strength < least then some (first, bindings, tokens)
        else
          match operand? bindings fuel rest with
          | none => none
          | some (second, bindings, rest) =>
            match operation? (strength + 1) second bindings fuel rest with
            | none => none
            | some (second, bindings, rest) =>
              match combine? sign first second with
              | none => none
              | some n => operation? least n bindings fuel rest
    | _ => some (first, bindings, tokens)

/-- Reads a number, a variable, an expression in parentheses, or one of these after a sign. -/
def operand? (bindings : Bindings) :
    Nat → List Token → Option (Int × Bindings × List Token)
  | 0, _ => none
  | fuel + 1, tokens =>
    let after (f : Int → Int) (rest : List Token) :=
      (operand? bindings fuel rest).map fun (n, bindings, rest) => (f n, bindings, rest)
    match tokens with
    | .number n :: rest => some (n, bindings, rest)
    | .name name :: rest => (valueOf? bindings name).map fun n => (n, bindings, rest)
    | .sign "-" :: rest => after (fun n => wrap (-n)) rest
    | .sign "+" :: rest => after id rest
    | .sign "!" :: rest => after (fun n => truth (n = 0)) rest
    | .sign "~" :: rest => after (fun n => -n - 1) rest
    | .sign "(" :: rest =>
      match expression? bindings fuel rest with
      | some (n, bindings, .sign ")" :: rest) => some (n, bindings, rest)
      | _ => none
    | _ => none

end

/-- The value of an expression as text, and the variables after it. -/
def evaluate? (bindings : Bindings) (s : Chars) : Option (Chars × Bindings) := do
  let found ← tokens? (s.length + 1) s
  if found.isEmpty then some (['0'], bindings)
  else
    match ← expression? bindings (4 * found.length + 4) found with
    | (n, bindings, []) => some (digits n, bindings)
    | _ => none

end DocHarvest.Shell.Arithmetic
