import DocHarvest.Cause
import DocHarvest.Source.Token

/-!
# Scanning a Source

A scanner walks over a source and hands out its tokens one by one. It counts lines, keeps
the depth of open brackets, and remembers the first error: once a scan has failed, every
later scan fails in the same way.

## Main definitions

* `Source` — a name, the bytes behind it, and how their supply ends.
* `ScanError` — why a scan fails.
* `Scanner.next` — the next token.
* `Source.scan` — all tokens of a source, and how scanning it ends.
-/

namespace DocHarvest

/-- How the supply of a source's bytes ends. -/
inductive Source.Ending
  | complete
  | failure (cause : Cause)
  deriving DecidableEq, Repr

/-- A source: its name in messages, its bytes, and how their supply ends. -/
structure Source where
  name : Bytes
  bytes : Bytes
  ending : Source.Ending := .complete
  deriving DecidableEq, Repr

namespace Source

/-- The ways in which a source breaks the rules of tokens. -/
inductive Malformation
  | openText
  | openLine
  | openBracket
  deriving DecidableEq, Repr

/-- The words for a malformed source. -/
def Malformation.message : Malformation → String
  | openText => "EOF in multi-line string"
  | openLine => "EOL while scanning string literal"
  | openBracket => "EOF in multi-line statement"

/-- Why a scan fails: the source is malformed at a line, or its bytes cannot be read. -/
inductive ScanError
  | malformed (what : Malformation) (line : Nat)
  | unreadable (cause : Cause)
  deriving DecidableEq, Repr

/-- The words for a failed scan of the source with the given name. -/
def ScanError.message (name : Bytes) : ScanError → Bytes
  | malformed what line =>
    name ++ utf8 ":" ++ decimalNat line ++ utf8 ": " ++ utf8 what.message
  | unreadable cause => utf8 "reading " ++ name ++ utf8 ": " ++ cause.message

/-- A scanner's state: the bytes not read yet, the line they start on, the number of open
brackets, and the error that ended the scan. -/
structure Scanner where
  rest : Bytes
  line : Nat := 1
  depth : Nat := 0
  error? : Option ScanError := none
  deriving DecidableEq, Repr

/-- The scanner at the start of a source. -/
def scanner (source : Source) : Scanner :=
  { rest := source.bytes }

/-- Bytes between tokens outside comments: blanks, line ends and backslashes. -/
def isBlank (b : UInt8) : Bool :=
  b = Byte.space || b = Byte.tab || b = Byte.carriageReturn || b = Byte.formFeed ||
    b = Byte.lineFeed || b = Byte.backslash

/-- Skips blanks and comments, counting lines. The flag says whether a comment is open. -/
def skipBlanks (inComment : Bool) (line : Nat) : Bytes → Nat × Bytes
  | [] => (line, [])
  | b :: rest =>
    if b = Byte.lineFeed then skipBlanks false (line + 1) rest
    else if inComment || b = Byte.hash then skipBlanks true line rest
    else if isBlank b then skipBlanks false line rest
    else (line, b :: rest)

/-- The depth of open brackets after an operator: opening brackets raise it, closing ones
lower it, and it never falls below zero. -/
def bracketDepth (depth : Nat) (kind : Kind) (text : Bytes) : Nat :=
  if kind ≠ .op then depth
  else if text = utf8 "(" || text = utf8 "[" || text = utf8 "\x7b" then depth + 1
  else if text = utf8 ")" || text = utf8 "]" || text = utf8 "\x7d" then depth - 1
  else depth

namespace Scanner

/-- A scan that fails, and that keeps failing. -/
def fail (s : Scanner) (error : ScanError) : Except ScanError Token × Scanner :=
  (.error error, { s with error? := some error })

/-- The result of a scan that has no bytes left. -/
def atEnd (ending : Ending) (s : Scanner) : Except ScanError Token × Scanner :=
  match ending with
  | .failure cause => s.fail (.unreadable cause)
  | .complete =>
    if 0 < s.depth then s.fail (.malformed .openBracket s.line)
    else (.ok ⟨.endOfFile, [], s.line⟩, s)

/-- The error that an interrupted literal ends a scan with. When the supply of bytes failed,
that failure is the error. -/
def interrupted (ending : Ending) (long : Bool) (line : Nat) : ScanError :=
  match ending with
  | .failure cause => .unreadable cause
  | .complete => .malformed (if long then .openText else .openLine) line

/-- The next token, and the scanner after it. A name or number that runs up to the place
where the supply of bytes failed is lost, because it might have gone on there. -/
def next (ending : Ending) (s : Scanner) : Except ScanError Token × Scanner :=
  match s.error? with
  | some error => (.error error, s)
  | none =>
    match skipBlanks false s.line s.rest with
    | (line, []) => { s with rest := [], line }.atEnd ending
    | (line, b :: tail) =>
      let here := { s with rest := b :: tail, line }
      match Lexeme.first b tail with
      | .brokenLiteral => here.fail (.malformed .openLine line)
      | .openLiteral long => here.fail (interrupted ending long line)
      | .token kind text rest =>
        match ending, rest, decide (kind = .name || kind = .number) with
        | .failure cause, [], true => here.fail (.unreadable cause)
        | _, _, _ =>
          (.ok ⟨kind, text, line⟩,
            { s with
              rest
              line := line + Bytes.lineFeeds text
              depth := bracketDepth s.depth kind text })

end Scanner

/-- The tokens that repeated scans hand out before the end, and the outcome of the scan that
reaches it: the token that marks the end of the file, or an error. The fuel bounds the number of
scans. -/
def scanFrom (ending : Ending) : Nat → Scanner → List Token × Except ScanError Token
  | 0, s => ([], (s.next ending).1)
  | fuel + 1, s =>
    match s.next ending with
    | (.error error, _) => ([], .error error)
    | (.ok token, after) =>
      if token.kind = .endOfFile then ([], .ok token)
      else
        let (tokens, outcome) := scanFrom ending fuel after
        (token :: tokens, outcome)

/-- All tokens of a source before its end, and how scanning it ends. A source has at most as
many tokens as bytes. -/
def scan (source : Source) : List Token × Except ScanError Token :=
  scanFrom source.ending source.bytes.length source.scanner

end Source

end DocHarvest
