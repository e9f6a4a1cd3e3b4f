import DocHarvest.Yaml.Scalar

/-!
# YAML Tokens

A document is cut into tokens: scalars, the indicators between them, and the starts and ends of
collections that only the indentation shows. Whether a scalar is a key is seen only when the
colon after it comes, so a key is marked, and a mapping is opened, before tokens that have
already been read.

Tokens wait in a queue until two more have been fetched behind them and it is settled whether
they start a key. A text is read no further than that takes.

## Main definitions

* `Yaml.Token` — the tokens.
* `Yaml.Scan` — the state of cutting a text into tokens; `Yaml.Scan.fetch` adds the next ones.
* `Yaml.tokens` — the tokens of a text that leave the queue.
-/

namespace DocHarvest.Yaml

/-- The tokens of a YAML text. -/
inductive Token
  | streamStart
  | streamEnd
  | version (major minor : Nat)
  | tagHandle (handle stem : Bytes)
  | documentStart
  | documentEnd
  | sequenceStart
  | mappingStart
  | blockEnd
  | flowSequenceStart
  | flowSequenceEnd
  | flowMappingStart
  | flowMappingEnd
  | blockEntry
  | flowEntry
  | key
  | value
  | alias (name : List Char)
  | anchor (name : List Char)
  | tag (handle suffix : Bytes)
  | scalar (text : List Char) (plain : Bool)
  deriving DecidableEq, Repr

/-- A token that turns into a key when a colon follows: whether that is still possible, whether it
can be nothing but a key, its number and its place. -/
structure PossibleKey where
  possible : Bool := false
  required : Bool := false
  number : Nat := 0
  index : Nat := 0
  line : Nat := 0
  column : Nat := 0
  deriving DecidableEq, Repr

/-- The state of cutting a text into tokens: the tokens in the queue and the number of those that
have left it, the column of the innermost block collection and those around it, the possible
key on each level of brackets (the innermost first), the level on which tokens were noted as
possible keys, and whether a key may start here. -/
structure Scan where
  cursor : Cursor
  queue : List Token := []
  left : Nat := 0
  indent : Int := -1
  outer : List Int := []
  keys : List PossibleKey := [{}]
  noted : List (Nat × Nat) := []
  keyAllowed : Bool := true
  deriving DecidableEq, Repr

/-- Collections may not be nested deeper than this. -/
def maxDepth : Nat := 10000

/-- A key has to end within this many characters. -/
def maxKey : Nat := 1024

/-! ### Comments -/

open Reader

/-- How far ahead a comment is looked for. -/
def commentReach : Nat := 512

/-- Looks for a comment ahead, from a number of places after the cursor on, and says where it
starts. Nothing but blanks, line feeds and carriage returns may stand before it, and without
`lines` nothing but blanks. Another line break ends the search one place later. The fuel is what
is left of the reach. -/
def commentAhead? (lines : Bool) : (fuel n : Nat) → Reader (Option Nat)
  | 0, _ => pure none
  | fuel + 1, n => do
    demand (n + 1)
    match ← peek? n with
    | none => pure none
    | some c =>
      if c = '#' then pure (some n)
      else if isBlank c || (lines && (c = '\n' || c = '\r')) then commentAhead? lines fuel (n + 1)
      else
        if lines && isBreak c && 0 < fuel then demand (n + 2)
        pure none

/-- Moves over characters and line breaks up to an index. The fuel bounds their number. -/
def moveTo (index : Nat) : Nat → Reader Unit
  | 0 => pure ()
  | fuel + 1 => do
    demand 1
    let c ← get
    if c.index < index then
      if atBreak c.head? then skipBreak else skip 1
      moveTo index fuel

/-- Moves over the comment that starts a number of places after the cursor. -/
def skipComment (n : Nat) : Reader Unit := do
  moveTo ((← get).index + n) (n + 1)
  toLineEnd

/-- Moves over a comment and over those that follow with only blanks and line breaks between them.
The fuel bounds their number. -/
def skipComments : Nat → Nat → Reader Unit
  | 0, _ => pure ()
  | fuel + 1, n => do
    skipComment n
    let next ←
      match ← head? with
      | some c =>
        if c = '\n' || c = '\r' then commentAhead? true (commentReach - 1) 1
        else do
          demand 2
          pure none
      | none => do
        demand 2
        pure none
    match next with
    | some n => skipComments fuel n
    | none => pure ()

/-- Moves over a comment that follows a token on its line. -/
def skipLineComment : Reader Unit := do
  if !(← get).afterBreak then
    match ← commentAhead? false commentReach 0 with
    | some n => skipComment n
    | none => pure ()

/-- Moves to the next token, over blanks, comments and line breaks, and says whether a key may
start there. A tab is blank only where no key can start. While the window starts with a byte
order mark, the first character of a line is passed over. The fuel bounds the number of
lines. -/
def skipToToken (inFlow : Bool) : Nat → Bool → Reader Bool
  | 0, keyAllowed => pure keyAllowed
  | fuel + 1, keyAllowed => do
    demand 1
    let c ← get
    if c.column = 0 && c.marked then skip 1
    skipWhile fun ch => ch = ' ' || ((inFlow || !keyAllowed) && ch = '\t')
    if (← head?) = some '#' then skipComments c.total 0
    if atBreak (← head?) then
      skipBreak
      skipToToken inFlow fuel (keyAllowed || !inFlow)
    else pure keyAllowed

/-! ### Names and tags -/

/-- Reads the name of an anchor or alias, from its indicator on. -/
def readName : Reader (List Char) := do
  skip 1
  let name ← takeWhile isNameChar
  let next? ← head?
  let ends := atGap next? ||
    (next?.map ['?', ':', ',', ']', '\x7d', '%', '@', '\x60'].contains).getD false
  if name.isEmpty || !ends then failure
  pure name

/-- Characters of which tags are made. -/
def isTagChar (c : Char) : Bool :=
  isNameChar c || [';', '/', '?', ':', '@', '&', '=', '+', '$', ',', '.', '!', '~', '*', '\'',
    '(', ')', '[', ']', '%'].contains c

/-- Reads the byte that a percent sign and two hexadecimal digits stand for. -/
def readOctet : Reader UInt8 := do
  demand 3
  match (← get).rest with
  | '%' :: a :: b :: _ =>
    let high ← hexValue? a
    let low ← hexValue? b
    skip 3
    pure (UInt8.ofNat (high * 16 + low))
  | _ => failure

/-- Reads the bytes after the first in an escaped character. -/
def readTrailingOctets : Nat → Reader Bytes
  | 0 => pure []
  | n + 1 => do
    let b ← readOctet
    if b < 0x80 || 0xC0 ≤ b then failure
    return b :: (← readTrailingOctets n)

/-- Reads an escaped character, of which only the first bits of each byte are checked. -/
def readEscapedBytes : Reader Bytes := do
  let b ← readOctet
  if encodedLength b = 0 then failure
  return b :: (← readTrailingOctets (encodedLength b - 1))

/-- Reads the characters of a tag, with escapes resolved. The fuel bounds their number. -/
def readTagChars : Nat → Bytes → Reader Bytes
  | 0, text => pure text
  | fuel + 1, text => do
    match ← head? with
    | none => pure text
    | some c =>
      if !isTagChar c then pure text
      else
        let bytes ← if c = '%' then readEscapedBytes else do
          skip 1
          pure (utf8Chars [c])
        demand 1
        readTagChars fuel (text ++ bytes)

/-- Reads a tag of which a head has been read already. The mark that the head starts with does
not belong to it. -/
def readTagRest (head : List Char) : Reader Bytes := do
  demand 1
  let c ← get
  let text ← readTagChars c.total (utf8Chars (head.drop 1))
  if head.isEmpty && (← get).index = c.index then failure
  pure text

/-- Reads the handle at the start of a tag: an exclamation mark, a name, and a second mark if
there is one. -/
def readHandle : Reader (List Char) := do
  demand 1
  if (← head?) ≠ some '!' then failure
  skip 1
  let name ← takeWhile isNameChar
  if (← head?) = some '!' then
    skip 1
    pure ('!' :: name ++ ['!'])
  else pure ('!' :: name)

/-- Whether a handle is closed by a second mark. -/
def isClosedHandle (handle : List Char) : Bool :=
  1 < handle.length && handle.getLast? = some '!'

/-- Reads a tag between angle brackets, which needs no handle. -/
def readVerbatimTag : Reader Token := do
  skip 2
  let suffix ← readTagRest []
  if (← head?) ≠ some '>' then failure
  skip 1
  pure (.tag [] suffix)

/-- Reads a tag that starts with a handle. -/
def readShortTag : Reader Token := do
  let handle ← readHandle
  if isClosedHandle handle then
    pure (.tag (utf8Chars handle) (← readTagRest []))
  else
    let suffix ← readTagRest handle
    pure (if suffix.isEmpty then .tag [] (utf8 "!") else .tag (utf8 "!") suffix)

/-- Reads a tag: a handle and what follows it. -/
def readTag : Reader Token := do
  demand 2
  let token ← if (← peek? 1) = some '<' then readVerbatimTag else readShortTag
  demand 1
  if !atGap (← head?) then failure
  pure token

/-! ### Directives -/

/-- Reads a version number of one or two digits. -/
def readVersionNumber : Reader Nat := do
  let digits ← takeWhile Char.isDigit
  if digits.isEmpty || 2 < digits.length then failure
  pure (digits.foldl (fun n d => n * 10 + (d.toNat - 48)) 0)

/-- Reads a version. -/
def readVersion : Reader Token := do
  skipWhile isBlank
  let major ← readVersionNumber
  if (← head?) ≠ some '.' then failure
  skip 1
  let minor ← readVersionNumber
  pure (.version major minor)

/-- Reads the meaning of a tag handle. -/
def readHandleMeaning : Reader Token := do
  skipWhile isBlank
  let handle ← readHandle
  if 1 < handle.length && !isClosedHandle handle then failure
  demand 1
  if !atBlank (← head?) then failure
  skipWhile isBlank
  let stem ← readTagRest []
  demand 1
  if !atGap (← head?) then failure
  pure (.tagHandle (utf8Chars handle) stem)

/-- Reads a directive: a version, or the meaning of a tag handle. -/
def readDirective : Reader Token := do
  skip 1
  let name ← takeWhile isNameChar
  if name.isEmpty || !atGap (← head?) then failure
  let token ←
    if name = "YAML".toList then readVersion
    else if name = "TAG".toList then readHandleMeaning
    else failure
  endHeader
  pure token

namespace Scan

/-- Runs a reader at the cursor. -/
def read {α : Type} (s : Scan) (reader : Reader α) : Option (α × Scan) :=
  (reader.run s.cursor).map fun (a, cursor) => (a, { s with cursor })

/-- Runs a reader at the cursor for what it does to it. -/
def move (s : Scan) (reader : Reader Unit) : Option Scan :=
  (s.read reader).map Prod.snd

/-- Whether brackets are open. -/
def inFlow (s : Scan) : Bool :=
  match s.keys with
  | _ :: _ :: _ => true
  | _ => false

/-- The number of the next token. -/
def nextNumber (s : Scan) : Nat :=
  s.left + s.queue.length

/-- Adds a token. -/
def emit (s : Scan) (token : Token) : Scan :=
  { s with queue := s.queue ++ [token] }

/-- Adds a token in front of the one with a given number; behind all others when that one has
left the queue. -/
def emitBefore (s : Scan) (number : Nat) (token : Token) : Scan :=
  if number < s.left then s.emit token
  else { s with queue := s.queue.insertIdx (number - s.left) token }

/-- Moves the cursor over an indicator and adds its token. -/
def take (s : Scan) (n : Nat) (token : Token) : Option Scan := do
  some ((← s.move (skip n)).emit token)

/-! ### Possible keys -/

/-- Forgets on which level a token was noted. -/
def forget (s : Scan) (number : Nat) : Scan :=
  { s with noted := s.noted.filter fun (noted, _) => noted ≠ number }

/-- Gives up the possible key on the current level, unless it has to be a key. -/
def dropKey (s : Scan) : Option Scan :=
  match s.keys with
  | key :: others =>
    if !key.possible then some s
    else if key.required then none
    else some ({ s with keys := { key with possible := false } :: others }.forget key.number)
  | [] => some s

/-- Notes that the next token may be a key. -/
def saveKey (s : Scan) : Option Scan :=
  if !s.keyAllowed then some s
  else do
    let s ← s.dropKey
    let key : PossibleKey :=
      { possible := true
        required := !s.inFlow && s.indent = s.cursor.column
        number := s.nextNumber
        index := s.cursor.index
        line := s.cursor.line
        column := s.cursor.column }
    some
      { s with
        keys := key :: s.keys.drop 1
        noted := (key.number, s.keys.length - 1) :: s.noted }

/-- Whether the possible key at a place in the stack of levels is still one. It is given up when
the cursor has come too far from it, which is an error if it has to be a key. -/
def checkKey (s : Scan) (place : Nat) : Option (Bool × Scan) :=
  match s.keys[place]? with
  | none => some (false, s)
  | some key =>
    if !key.possible then some (false, s)
    else if key.line < s.cursor.line || key.index + maxKey < s.cursor.index then
      if key.required then none
      else some (false, { s with keys := s.keys.set place { key with possible := false } })
    else some (true, s)

/-- Whether the first token in the queue may leave it: two others have been fetched behind it, and
on the level on which it was noted no key is possible any more. -/
def settle (s : Scan) : Option (Bool × Scan) :=
  if s.queue.length < 3 then some (false, s)
  else
    match s.noted.lookup s.left with
    | none => some (true, s)
    | some level => (s.checkKey (s.keys.length - 1 - level)).map fun (pending, s) => (!pending, s)

/-! ### Indentation -/

/-- Closes the block collections that start to the right of a column. -/
def closeBlocks (column : Int) : List Int → Int → List Token → List Int × Int × List Token
  | [], indent, tokens =>
    if column < indent then ([], -1, tokens ++ [.blockEnd]) else ([], indent, tokens)
  | above :: others, indent, tokens =>
    if column < indent then closeBlocks column others above (tokens ++ [.blockEnd])
    else (above :: others, indent, tokens)

/-- Closes the block collections that start to the right of a column, outside brackets. -/
def unroll (s : Scan) (column : Int) : Scan :=
  if s.inFlow then s
  else
    let (outer, indent, queue) := closeBlocks column s.outer s.indent s.queue
    { s with outer, indent, queue }

/-- Opens a block collection at a column, unless one is open there. Its token goes in front of
the token with the given number. -/
def roll (s : Scan) (column : Nat) (number : Nat) (token : Token) : Option Scan :=
  if !s.inFlow && s.indent < column then
    if maxDepth ≤ s.outer.length then none
    else some ({ s with outer := s.indent :: s.outer, indent := column }.emitBefore number token)
  else some s

/-! ### Fetching tokens -/

/-- Closes everything before a directive, a mark of a document or the end of the stream. -/
def reset (s : Scan) : Option Scan := do
  let s ← (s.unroll (-1)).dropKey
  some { s with keyAllowed := false }

/-- Ends the stream. -/
def fetchEnd (s : Scan) : Option Scan := do
  some ((← { s with cursor := s.cursor.endLine }.reset).emit .streamEnd)

/-- Fetches a directive. -/
def fetchDirective (s : Scan) : Option Scan := do
  let (token, s) ← (← s.reset).read readDirective
  some (s.emit token)

/-- Fetches a mark of a document's start or end. -/
def fetchMark (s : Scan) (token : Token) : Option Scan := do
  (← s.reset).take 3 token

/-- Fetches an opening bracket. -/
def fetchOpening (s : Scan) (token : Token) : Option Scan := do
  let s ← s.saveKey
  if maxDepth < s.keys.length then none
  let level : PossibleKey := { number := s.nextNumber }
  { s with keys := level :: s.keys, keyAllowed := true }.take 1 token

/-- Leaves the current level of brackets. -/
def leaveLevel (s : Scan) : Scan :=
  match s.keys with
  | key :: outer :: others => { s with keys := outer :: others }.forget key.number
  | _ => s

/-- Fetches a closing bracket. -/
def fetchClosing (s : Scan) (token : Token) : Option Scan := do
  let s ← s.dropKey
  { s.leaveLevel with keyAllowed := false }.take 1 token

/-- Fetches a comma. -/
def fetchComma (s : Scan) : Option Scan := do
  let s ← s.dropKey
  { s with keyAllowed := true }.take 1 .flowEntry

/-- Fetches the indicator of a sequence's entry. -/
def fetchEntry (s : Scan) : Option Scan := do
  if !s.inFlow && !s.keyAllowed then none
  let s ← (← s.roll s.cursor.column s.nextNumber .sequenceStart).dropKey
  { s with keyAllowed := true }.take 1 .blockEntry

/-- Fetches the indicator of a key. -/
def fetchKey (s : Scan) : Option Scan := do
  if !s.inFlow && !s.keyAllowed then none
  let s ← (← s.roll s.cursor.column s.nextNumber .mappingStart).dropKey
  { s with keyAllowed := !s.inFlow }.take 1 .key

/-- Turns the token that a key was possible at into one. -/
def markKey (s : Scan) (key : PossibleKey) : Option Scan := do
  let s ← (s.emitBefore key.number .key).roll key.column key.number .mappingStart
  let keys := { key with possible := false } :: s.keys.drop 1
  some ({ s with keys, keyAllowed := false }.forget key.number)

/-- Fetches the indicator of a value, which makes a possible key one. -/
def fetchValue (s : Scan) : Option Scan := do
  let s ←
    match ← s.checkKey 0, s.keys with
    | (true, s), key :: _ => s.markKey key
    | (_, s), _ =>
      if !s.inFlow && !s.keyAllowed then none
      else do
        let s ← s.roll s.cursor.column s.nextNumber .mappingStart
        some { s with keyAllowed := !s.inFlow }
  s.take 1 .value

/-- Fetches an anchor or an alias. -/
def fetchName (s : Scan) (token : List Char → Token) : Option Scan := do
  let (name, s) ← (← s.saveKey).read readName
  some ({ s with keyAllowed := false }.emit (token name))

/-- Fetches a tag. -/
def fetchTag (s : Scan) : Option Scan := do
  let (token, s) ← (← s.saveKey).read readTag
  some ({ s with keyAllowed := false }.emit token)

/-- Fetches a block scalar. -/
def fetchBlock (s : Scan) (folded : Bool) : Option Scan := do
  let (text, s) ← (← s.dropKey).read (readBlock folded s.indent)
  some ({ s with keyAllowed := true }.emit (.scalar text false))

/-- Fetches a quoted scalar. -/
def fetchQuoted (s : Scan) (double : Bool) : Option Scan := do
  let (text, s) ← (← s.saveKey).read (readQuoted double)
  some ({ s with keyAllowed := false }.emit (.scalar text false))

/-- Fetches a plain scalar. -/
def fetchPlain (s : Scan) : Option Scan := do
  let (plain, s) ← (← s.saveKey).read (readPlain s.inFlow s.indent)
  some ({ s with keyAllowed := plain.broken }.emit (.scalar plain.text true))

/-- Whether plain text can start with a character, given the one after it. -/
def startsPlain (inFlow : Bool) (c : Char) (next? : Option Char) : Bool :=
  if c = '-' then !atBlank next?
  else if c = '?' || c = ':' then !inFlow && !atGap next?
  else
    !(isBlank c || isBreak c ||
      [',', '[', ']', '\x7b', '\x7d', '#', '&', '*', '!', '|', '>', '\'', '"', '%', '@',
        '\x60'].contains c)

/-- Fetches what the character at the cursor starts. -/
def fetchAt (s : Scan) (c : Char) : Option Scan :=
  let next? := s.cursor.peek? 1
  if c = '[' then s.fetchOpening .flowSequenceStart
  else if c = '\x7b' then s.fetchOpening .flowMappingStart
  else if c = ']' then s.fetchClosing .flowSequenceEnd
  else if c = '\x7d' then s.fetchClosing .flowMappingEnd
  else if c = ',' then s.fetchComma
  else if c = '-' && atGap next? then s.fetchEntry
  else if c = '?' && (s.inFlow || atGap next?) then s.fetchKey
  else if c = ':' && (s.inFlow || atGap next?) then s.fetchValue
  else if c = '*' then s.fetchName .alias
  else if c = '&' then s.fetchName .anchor
  else if c = '!' then s.fetchTag
  else if c = '|' && !s.inFlow then s.fetchBlock false
  else if c = '>' && !s.inFlow then s.fetchBlock true
  else if c = '\'' then s.fetchQuoted false
  else if c = '"' then s.fetchQuoted true
  else if startsPlain s.inFlow c next? then s.fetchPlain
  else none

/-- Moves over a comment after the token fetched last, unless that token opened a sequence's
entry. -/
def afterToken (s : Scan) : Option Scan :=
  if s.queue.getLast? = some .blockEntry then some s else s.move skipLineComment

/-- Fetches the next tokens. -/
def fetch (s : Scan) : Option Scan := do
  let (keyAllowed, s) ← s.read (skipToToken s.inFlow (s.cursor.total + 1) s.keyAllowed)
  let s := { s with keyAllowed }.unroll s.cursor.column
  let s ← s.move (demand 4)
  match s.cursor.head? with
  | none => s.fetchEnd
  | some c =>
    if s.cursor.column = 0 && c = '%' then s.fetchDirective
    else if s.cursor.atMark '-' then s.fetchMark .documentStart
    else if s.cursor.atMark '.' then s.fetchMark .documentEnd
    else (← s.fetchAt c).afterToken

/-- The tokens that leave the queue, up to the end of the stream or up to where the text goes
wrong. The fuel bounds the number of fetches and tokens. -/
def run : Nat → Scan → List Token
  | 0, _ => []
  | fuel + 1, s =>
    match s.settle with
    | none => []
    | some (true, s) =>
      match s.queue with
      | [] => []
      | .streamEnd :: _ => [.streamEnd]
      | token :: queue => token :: run fuel { s with queue, left := s.left + 1 }
    | some (false, s) =>
      match s.fetch with
      | none => []
      | some s => run fuel s

end Scan

/-- The scan at the start of a text, whose first token stands for the start of the stream. -/
def Supply.scan? (supply : Supply) : Option Scan :=
  (supply.cursor.demand 1).map fun cursor => { cursor, queue := [.streamStart] }

/-- The tokens of a text that leave the queue. Each character gives at most one fetch, which adds
at most a scalar or indicator, a key, and the start and end of a collection. -/
def tokens (supply : Supply) : List Token :=
  match supply.scan? with
  | none => []
  | some scan => scan.run (5 * supply.chars.length + 12)

end DocHarvest.Yaml
