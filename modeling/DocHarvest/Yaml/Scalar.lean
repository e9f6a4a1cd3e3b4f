import DocHarvest.Yaml.Cursor

/-!
# Scalars in a Document

The forms in which a document writes a text, and how each is read: without quotes, in single
or double quotes, and as a block. Text that goes over several lines is folded: a single line
break counts as a blank, and of several the first does not count.

## Main definitions

* `Yaml.readPlain` — text without quotes.
* `Yaml.readQuoted` — text in quotes.
* `Yaml.readBlock` — a literal or folded block.
-/

namespace DocHarvest.Yaml

open Reader

/-! ### Gaps between words -/

/-- Blanks and line breaks between two words: the blanks before the first break, the first break
and the others. Blanks and breaks are kept from the last to the first. -/
structure Gap where
  blanks : List Char := []
  broken : Bool := false
  firstBreak? : Option Char := none
  moreBreaks : List Char := []
  deriving DecidableEq, Repr

/-- The text that a gap stands for. -/
def Gap.text (gap : Gap) : List Char :=
  if !gap.broken then gap.blanks.reverse
  else if gap.firstBreak? = some '\n' then
    if gap.moreBreaks.isEmpty then [' '] else gap.moreBreaks.reverse
  else gap.firstBreak?.toList ++ gap.moreBreaks.reverse

/-- A gap with one more blank; blanks after a line break do not count. -/
def Gap.addBlank (gap : Gap) (c : Char) : Gap :=
  if gap.broken then gap else { gap with blanks := c :: gap.blanks }

/-- A gap with one more line break. -/
def Gap.addBreak (gap : Gap) (c : Char) : Gap :=
  if gap.broken then { gap with moreBreaks := readBreak c :: gap.moreBreaks }
  else { gap with blanks := [], broken := true, firstBreak? := some (readBreak c) }

/-- Whether a column lies before an indentation that has to be kept. -/
def before (indentation? : Option Int) (column : Nat) : Bool :=
  match indentation? with
  | some n => (column : Int) < n
  | none => false

/-- Reads a gap. With an indentation to keep, a tab may not stand in its columns after a line
break. The fuel bounds the number of characters. -/
def readGap (indentation? : Option Int) : Nat → Gap → Reader Gap
  | 0, gap => pure gap
  | fuel + 1, gap => do
    let c ← get
    match c.head? with
    | none => pure gap
    | some ch =>
      if isBlank ch then
        if gap.broken && ch = '\t' && before indentation? c.column then failure
        skip 1
        demand 1
        readGap indentation? fuel (gap.addBlank ch)
      else if isBreak ch then
        skipBreak
        demand 1
        readGap indentation? fuel (gap.addBreak ch)
      else pure gap

/-! ### Text without quotes -/

/-- Whether a character ends plain text inside brackets. -/
def endsFlow (c : Char) : Bool :=
  [',', '?', '[', ']', '\x7b', '\x7d'].contains c

/-- Whether a word of plain text ends at a character, given the one after it: at a gap, at a colon
before a gap or, inside brackets, at an indicator. -/
def endsWord (inFlow : Bool) (c : Char) (next? : Option Char) : Bool :=
  isBlank c || isBreak c || (c = ':' && atGap next?) || (inFlow && endsFlow c)

/-- Reads a word of plain text. The fuel bounds the number of characters. -/
def plainWord (inFlow : Bool) : Nat → List Char → Reader (List Char)
  | 0, chars => pure chars.reverse
  | fuel + 1, chars => do
    match ← head? with
    | none => pure chars.reverse
    | some ch =>
      if endsWord inFlow ch (← peek? 1) then pure chars.reverse
      else
        skip 1
        demand 2
        plainWord inFlow fuel (ch :: chars)

/-- Plain text, and whether a line break was passed after its last word. -/
structure Plain where
  text : List Char
  broken : Bool
  deriving DecidableEq, Repr

/-- Reads words of plain text and the gaps between them. What has been read is kept from its end
to its start. The indentation is the least column that later lines may start in. The fuel bounds
the number of words. -/
def readWords (inFlow : Bool) (indentation : Int) : Nat → List Char → Gap → Reader Plain
  | 0, text, gap => pure ⟨text.reverse, gap.broken⟩
  | fuel + 1, text, gap => do
    demand 4
    let c ← get
    if c.atDocumentMark || c.head? = some '#' then pure ⟨text.reverse, gap.broken⟩
    else
      let word ← plainWord inFlow c.total []
      let text := if word.isEmpty then text else (gap.text ++ word).reverseAux text
      let gap := if word.isEmpty then gap else {}
      let next? ← head?
      if !(atBlank next? || atBreak next?) then pure ⟨text.reverse, gap.broken⟩
      else
        demand 1
        let gap ← readGap (some indentation) c.total gap
        if !inFlow && ((← get).column : Int) < indentation then pure ⟨text.reverse, gap.broken⟩
        else readWords inFlow indentation fuel text gap

/-- Reads plain text below a given column. -/
def readPlain (inFlow : Bool) (indent : Int) : Reader Plain := do
  readWords inFlow (indent + 1) ((← get).total + 1) [] {}

/-! ### Text in quotes -/

/-- The value of a hexadecimal digit. -/
def hexValue? (c : Char) : Option Nat :=
  if c.isDigit then some (c.toNat - 48)
  else if 'a' ≤ c && c ≤ 'f' then some (c.toNat - 87)
  else if 'A' ≤ c && c ≤ 'F' then some (c.toNat - 55)
  else none

/-- The character whose code is written in hexadecimal digits. -/
def codedChar? (digits : List Char) : Option Char := do
  let n ← digits.foldlM (fun n c => (hexValue? c).map (n * 16 + ·)) 0
  if (0xD800 ≤ n && n ≤ 0xDFFF) || 0x10FFFF < n then none else some (Char.ofNat n)

/-- What an escape with one letter stands for. -/
def escapedChar? : Char → Option Char
  | '0' => some '\x00'
  | 'a' => some '\x07'
  | 'b' => some '\x08'
  | 't' => some '\t'
  | '\t' => some '\t'
  | 'n' => some '\n'
  | 'v' => some '\x0b'
  | 'f' => some '\x0c'
  | 'r' => some '\r'
  | 'e' => some '\x1b'
  | ' ' => some ' '
  | '"' => some '"'
  | '\'' => some '\''
  | '\\' => some '\\'
  | 'N' => some '\x85'
  | '_' => some '\xa0'
  | 'L' => some '\u2028'
  | 'P' => some '\u2029'
  | _ => none

/-- The number of digits after a letter that announces a character's code. -/
def codeLength? : Char → Option Nat
  | 'x' => some 2
  | 'u' => some 4
  | 'U' => some 8
  | _ => none

/-- Reads an escape whose letter is given, and what it stands for. -/
def readEscape (letter : Char) : Reader Char := do
  match codeLength? letter with
  | some n =>
    skip 2
    demand n
    let digits := (← get).rest.take n
    if digits.length < n then failure
    skip n
    codedChar? digits
  | none =>
    skip 2
    escapedChar? letter

/-- Reads a word in quotes, up to the gap or quote that ends it. The flag says whether an escaped
line break ended it. The fuel bounds the number of characters. -/
def quotedWord (double : Bool) : Nat → List Char → Reader (List Char × Bool)
  | 0, chars => pure (chars.reverse, false)
  | fuel + 1, chars => do
    match (← get).rest with
    | [] => pure (chars.reverse, false)
    | ch :: rest =>
      if isBlank ch || isBreak ch || (double && ch = '"') then pure (chars.reverse, false)
      else if !double && ch = '\'' then
        if rest.head? = some '\'' then
          skip 2
          demand 2
          quotedWord double fuel ('\'' :: chars)
        else pure (chars.reverse, false)
      else if double && ch = '\\' then
        match rest.head? with
        | none => failure
        | some letter =>
          if isBreak letter then
            demand 3
            skip 1
            modify Cursor.skipBreak
            pure (chars.reverse, true)
          else
            let escape ← readEscape letter
            demand 2
            quotedWord double fuel (escape :: chars)
      else
        skip 1
        demand 2
        quotedWord double fuel (ch :: chars)

/-- Reads words in quotes and the gaps between them, up to the closing quote. What has been read is
kept from its end to its start. The fuel bounds the number of words. -/
def readQuotedWords (double : Bool) : Nat → List Char → Reader (List Char)
  | 0, _ => failure
  | fuel + 1, text => do
    demand 4
    let c ← get
    if c.atDocumentMark || c.rest.isEmpty then failure
    let (word, escape) ← quotedWord double c.total []
    let text := word.reverseAux text
    demand 1
    if (← head?) = some (if double then '"' else '\'') then
      skip 1
      pure text.reverse
    else
      let gap ← readGap none c.total { broken := escape }
      readQuotedWords double fuel (gap.text.reverseAux text)

/-- Reads text in quotes, from the opening quote on. -/
def readQuoted (double : Bool) : Reader (List Char) := do
  skip 1
  readQuotedWords double ((← get).total + 1) []

/-! ### Blocks -/

/-- What happens to the line breaks at the end of a block. -/
inductive Chomping
  | clip
  | strip
  | keep
  deriving DecidableEq, Repr

/-- The line breaks between a block's lines, the last first, and the block's indentation once it is
known. -/
structure Breaks where
  breaks : List Char := []
  indentation : Nat
  widest : Nat := 0
  deriving DecidableEq, Repr

/-- Moves over the spaces of an indentation; over all of them when it is not known. The fuel
bounds their number. -/
def skipIndentation (indentation : Nat) : Nat → Reader Unit
  | 0 => pure ()
  | fuel + 1 => do
    let c ← get
    if (indentation = 0 || c.column < indentation) && c.head? = some ' ' then
      skip 1
      demand 1
      skipIndentation indentation fuel

/-- Reads empty lines and the indentation of the next line. An indentation of zero is not known
yet. A tab may not stand where indentation is expected. The fuel bounds the number of lines. -/
def readBreaks : Nat → Breaks → Reader Breaks
  | 0, b => pure b
  | fuel + 1, b => do
    demand 1
    skipIndentation b.indentation (← get).total
    let c ← get
    let b := { b with widest := max b.widest c.column }
    if (b.indentation = 0 || c.column < b.indentation) && c.head? = some '\t' then failure
    match c.head? with
    | some ch =>
      if isBreak ch then
        skipBreak
        readBreaks fuel { b with breaks := readBreak ch :: b.breaks }
      else pure b
    | none => pure b

/-- Reads empty lines, and settles the indentation of a block below a given column. -/
def settleBreaks (indent : Int) (indentation : Nat) : Reader Breaks := do
  let b ← readBreaks ((← get).total + 1) { indentation }
  if b.indentation = 0 then
    pure { b with indentation := max (max b.widest (indent + 1).toNat) 1 }
  else pure b

/-- A block as far as it has been read: its text from the end to the start, the line break after
its last line, whether that line started with a blank, and the empty lines after it. -/
structure Block where
  text : List Char := []
  lineBreak : List Char := []
  startedBlank : Bool := false
  emptyLines : List Char := []
  deriving DecidableEq, Repr

/-- Adds a line to a block. In a folded block a line break between two lines that do not
start with a blank counts as a blank. -/
def Block.add (folded : Bool) (block : Block) (line : List Char) (lineBreak : List Char) : Block :=
  let startsBlank := atBlank line.head?
  let joint :=
    if folded && !block.startedBlank && !startsBlank && block.lineBreak.head? = some '\n' then
      if block.emptyLines.isEmpty then [' '] else []
    else block.lineBreak
  { text := (joint ++ block.emptyLines ++ line).reverseAux block.text
    lineBreak
    startedBlank := startsBlank }

/-- Reads the lines of a block. The fuel bounds their number. -/
def readLines (folded : Bool) (indentation : Nat) : Nat → Block → Reader Block
  | 0, block => pure block
  | fuel + 1, block => do
    let c ← get
    if c.column ≠ indentation || c.rest.isEmpty then pure block
    else
      let line ← takeWhile fun ch => !isBreak ch
      let lineBreak := ((← head?).map readBreak).toList
      skipBreak
      let b ← readBreaks (c.total + 1) { indentation }
      readLines folded indentation fuel
        { block.add folded line lineBreak with emptyLines := b.breaks.reverse }

/-- The text of a block that has been read. -/
def Block.chomp (block : Block) : Chomping → List Char
  | .strip => block.text.reverse
  | .clip => block.text.reverse ++ block.lineBreak
  | .keep => block.text.reverse ++ block.lineBreak ++ block.emptyLines

/-- Reads the mark of a chomping, if there is one. -/
def readChomping : Reader (Option Chomping) := do
  match ← head? with
  | some '-' => skip 1; pure (some .strip)
  | some '+' => skip 1; pure (some .keep)
  | _ => pure none

/-- Reads the mark of an indentation, if there is one. It may not be zero. -/
def readIncrement : Reader (Option Nat) := do
  match ← head? with
  | some c =>
    if c = '0' then failure
    else if c.isDigit then skip 1; pure (some (c.toNat - 48))
    else pure none
  | none => pure none

/-- Reads the marks after a block's indicator, in either order: chomping and indentation. -/
def readMarks : Reader (Chomping × Nat) := do
  demand 1
  match ← readChomping with
  | some chomping =>
    demand 1
    pure (chomping, (← readIncrement).getD 0)
  | none =>
    match ← readIncrement with
    | some n =>
      demand 1
      pure ((← readChomping).getD .clip, n)
    | none => pure (.clip, 0)

/-- Moves over blanks and a comment to the end of the line, where nothing else may stand, and over
the line break. -/
def endHeader : Reader Unit := do
  skipWhile isBlank
  if (← head?) = some '#' then toLineEnd
  let next? ← head?
  if !atLineEnd next? then failure
  if atBreak next? then skipBreak

/-- Reads a block below a given column, from its indicator on. -/
def readBlock (folded : Bool) (indent : Int) : Reader (List Char) := do
  skip 1
  let (chomping, increment) ← readMarks
  endHeader
  let b ← settleBreaks indent (if increment = 0 then 0 else indent.toNat + increment)
  demand 1
  let block ←
    readLines folded b.indentation ((← get).total + 1) { emptyLines := b.breaks.reverse }
  pure (block.chomp chomping)

end DocHarvest.Yaml
