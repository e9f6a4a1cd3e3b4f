import DocHarvest.Source.Scanner

/-!
# Documentation Strings

A documentation string is a string literal with no letters before it that three double
quotes open. Its text is what stands between the quotes, with continued lines joined.

## Main definitions

* `DocString` — a documentation text with the place it was found at.
* `docText?` — the documentation text of a literal.
* `Source.docStrings` — the documentation strings of a source, and the error that ends it.
* `Source.docStringsUpTo` — what is handed out to a reader that leaves after a number of them.
-/

namespace DocHarvest

/-- A documentation text, the name of the source that holds it, and the line on which its
literal starts. -/
structure DocString where
  text : Bytes
  source : Bytes
  line : Int
  deriving DecidableEq, Repr

namespace Source

/-- Drops every backslash that a line feed follows, with the line feed. -/
def joinLines : Bytes → Bytes
  | [] => []
  | Byte.backslash :: Byte.lineFeed :: rest => joinLines rest
  | b :: rest => b :: joinLines rest

/-- The quotes around documentation. -/
def docQuotes : Bytes := [Byte.doubleQuote, Byte.doubleQuote, Byte.doubleQuote]

/-- The documentation text of a literal, if it starts with three double quotes and is long
enough to end with three others. -/
def docText? (literal : Bytes) : Option Bytes :=
  if docQuotes.isPrefixOf literal && 6 ≤ literal.length then
    some (joinLines ((literal.drop 3).take (literal.length - 6)))
  else none

/-- The documentation string that a token holds. -/
def docString? (name : Bytes) (token : Token) : Option DocString :=
  if token.kind = .string then
    (docText? token.text).map fun text => ⟨text, name, token.line⟩
  else none

/-- The documentation strings of a source in order, and the error that ends the scan, if one
does. -/
def docStrings (source : Source) : List DocString × Option ScanError :=
  let (tokens, outcome) := source.scan
  (tokens.filterMap (docString? source.name),
    match outcome with
    | .ok _ => none
    | .error error => some error)

/-- Scans for documentation strings until the given number of them has been handed out, or until
scanning ends, and then hands out the error that ended it. The fuel bounds the number of scans. -/
def handOut (ending : Ending) (name : Bytes) :
    Nat → Nat → Scanner → List DocString × Option ScanError
  | _, 0, _ => ([], none)
  | 0, _ + 1, _ => ([], none)
  | fuel + 1, limit + 1, s =>
    match s.next ending with
    | (.error error, _) => ([], some error)
    | (.ok token, after) =>
      if token.kind = .endOfFile then ([], none)
      else
        match docString? name token with
        | none => handOut ending name fuel (limit + 1) after
        | some d =>
          let (others, error?) := handOut ending name fuel limit after
          (d :: others, error?)

/-- What a reader sees that takes the documentation strings of a source one by one and leaves
after the given number of them. The scan that finds the end comes after all tokens. -/
def docStringsUpTo (source : Source) (limit : Nat) : List DocString × Option ScanError :=
  handOut source.ending source.name (source.bytes.length + 1) limit source.scanner

end Source

end DocHarvest
