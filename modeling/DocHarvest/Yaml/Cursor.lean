import DocHarvest.Yaml.Supply

/-!
# Cursors

A place in a YAML text: the characters that follow, how many came before, and the line and
column. Lines and columns decide what a character means, so everything that reads a document
moves a cursor.

A cursor looks at the text through a window. Whoever reads asks for as many characters as they
are going to look at; when the window holds fewer, it is filled up from the supply, and from then
on it starts at the cursor. The text may be looked at beyond its end, where nothing stands.

## Main definitions

* `Yaml.Cursor` — a place in a text.
* `Yaml.Reader` — a step that reads from a cursor and may fail.
* `Yaml.Reader.demand` — asks for characters.
-/

namespace DocHarvest.Yaml

/-- A place in a text. -/
structure Cursor where
  rest : List Char
  /-- How many characters the whole text has. It bounds every loop over characters. -/
  total : Nat
  /-- How many of the characters ahead the window holds, places behind the end included. -/
  ready : Nat := 0
  /-- The sizes of the blocks behind the window. -/
  blocks : List Nat := []
  /-- Whether the last block is followed by the end of the text, and not by a spoilt one. -/
  sound : Bool := true
  /-- Whether the window starts with a byte order mark. -/
  marked : Bool := false
  index : Nat := 0
  line : Nat := 0
  column : Nat := 0
  /-- Whether nothing but blanks came since the last line break. -/
  afterBreak : Bool := false
  deriving DecidableEq, Repr

/-- The cursor at the start of a supply. -/
def Supply.cursor (supply : Supply) : Cursor :=
  { rest := supply.chars
    total := supply.chars.length
    blocks := supply.blocks
    sound := supply.sound }

/-- Whether there is a line break. -/
def atBreak (c? : Option Char) : Bool :=
  (c?.map isBreak).getD false

/-- Whether there is a blank inside a line. -/
def atBlank (c? : Option Char) : Bool :=
  (c?.map isBlank).getD false

/-- Whether there is a line break or the end of the text. -/
def atLineEnd (c? : Option Char) : Bool :=
  (c?.map isBreak).getD true

/-- Whether there is a blank, a line break or the end of the text. -/
def atGap (c? : Option Char) : Bool :=
  (c?.map fun c => isBlank c || isBreak c).getD true

/-- A line break as it is read: breaks of one line become a line feed, separators stay. -/
def readBreak (c : Char) : Char :=
  if c = '\u2028' || c = '\u2029' then c else '\n'

namespace Cursor

/-- The character at the cursor. -/
def head? (c : Cursor) : Option Char :=
  c.rest.head?

/-- The character a number of places after the cursor. -/
def peek? (c : Cursor) (n : Nat) : Option Char :=
  c.rest[n]?

/-- Moves over one place of a line. -/
def skip (c : Cursor) : Cursor :=
  { c with
    rest := c.rest.tail
    ready := c.ready - 1
    index := c.index + 1
    column := c.column + 1
    afterBreak := c.afterBreak && atBlank c.head? }

/-- Moves over a line break, which may be of two characters. -/
def skipBreak (c : Cursor) : Cursor :=
  let onward (n : Nat) (rest : List Char) : Cursor :=
    { c with
      rest
      ready := c.ready - n
      index := c.index + n
      line := c.line + 1
      column := 0
      afterBreak := true }
  match c.rest with
  | '\r' :: '\n' :: rest => onward 2 rest
  | _ :: rest => onward 1 rest
  | [] => c

/-- Moves to the start of the next line where a text ends inside a line. -/
def endLine (c : Cursor) : Cursor :=
  if c.column = 0 then c else { c with line := c.line + 1, column := 0 }

/-- Whether a mark of a document's start or end stands at the cursor: three times the
character at the start of a line, and a gap. -/
def atMark (c : Cursor) (ch : Char) : Bool :=
  c.column = 0 && c.rest.take 3 = [ch, ch, ch] && atGap (c.peek? 3)

/-- Whether a document starts or ends at the cursor. -/
def atDocumentMark (c : Cursor) : Bool :=
  c.atMark '-' || c.atMark '.'

/-- How many characters a window holds that is filled up to a number of them, and the blocks left
behind it. Behind the last block it gains one place, or fails when the supply is not sound. -/
def refill (sound : Bool) (n : Nat) : Nat → List Nat → Option (Nat × List Nat)
  | ready, [] =>
    if n ≤ ready then some (ready, []) else if sound then some (ready + 1, []) else none
  | ready, block :: blocks =>
    if n ≤ ready then some (ready, block :: blocks) else refill sound n (ready + block) blocks

/-- The cursor with a window that holds a number of characters, as far as there are so many. -/
def demand (c : Cursor) (n : Nat) : Option Cursor :=
  if n ≤ c.ready then some c
  else
    (refill c.sound n c.ready c.blocks).map fun (ready, blocks) =>
      { c with ready, blocks, marked := c.head? = some byteOrderMark }

end Cursor

/-- A step that reads from a cursor and may fail. -/
abbrev Reader := StateT Cursor Option

namespace Reader

/-- Asks for a number of characters. -/
def demand (n : Nat) : Reader Unit := do
  set (← (← get).demand n)

/-- The character at the cursor. -/
def head? : Reader (Option Char) :=
  Cursor.head? <$> get

/-- The character a number of places after the cursor. -/
def peek? (n : Nat) : Reader (Option Char) :=
  (Cursor.peek? · n) <$> get

/-- Moves over a number of places of a line. -/
def skip (n : Nat) : Reader Unit :=
  modify (n.repeat Cursor.skip)

/-- Moves over a line break. -/
def skipBreak : Reader Unit := do
  demand 2
  modify Cursor.skipBreak

/-- Reads on while a test accepts the character at the cursor, asking for one character more each
time. The fuel bounds the number of characters. -/
def takeWhileFrom (p : Char → Bool) : Nat → List Char → Reader (List Char)
  | 0, chars => pure chars.reverse
  | fuel + 1, chars => do
    match ← head? with
    | none => pure chars.reverse
    | some c =>
      if p c then
        skip 1
        demand 1
        takeWhileFrom p fuel (c :: chars)
      else pure chars.reverse

/-- Reads the characters ahead that a test accepts. -/
def takeWhile (p : Char → Bool) : Reader (List Char) := do
  demand 1
  takeWhileFrom p (← get).total []

/-- Moves over the characters ahead that a test accepts. -/
def skipWhile (p : Char → Bool) : Reader Unit := do
  let _ ← takeWhile p

/-- Moves to the end of the line. -/
def toLineEnd : Reader Unit :=
  skipWhile fun c => !isBreak c

end Reader

end DocHarvest.Yaml
