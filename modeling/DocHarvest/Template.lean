import DocHarvest.Text.Quoted

/-!
# Templates

A template is a text with directives that a percent sign starts. It is filled with one
argument, the name of a format. A directive has optional flags, an optional index, width and
precision, and a verb that says how the argument is shown. Whatever is wrong with a directive
is shown in its place, so filling a template never fails.

## Main definitions

* `Template.Layout` — flags, width and precision of a directive.
* `Template.display` — the argument as a verb and a layout show it.
* `Template.directive` — one directive.
* `Template.fill` — a whole template.
-/

namespace DocHarvest.Template

/-! ### Layout -/

/-- Flags, width and precision of a directive. -/
structure Layout where
  sharp : Bool := false
  zero : Bool := false
  plus : Bool := false
  minus : Bool := false
  space : Bool := false
  width? : Option Nat := none
  precision? : Option Nat := none
  deriving DecidableEq, Repr

/-- Bytes that fill up a width: zeros on the left where they are asked for, blanks else. -/
def Layout.padding (layout : Layout) (n : Nat) : Bytes :=
  List.replicate n (if layout.zero && !layout.minus then 48 else Byte.space)

/-- A text that takes up the width of the layout, given the columns it needs itself. -/
def Layout.pad (layout : Layout) (columns : Nat) (text : Bytes) : Bytes :=
  let fill := layout.padding (layout.width?.getD 0 - columns)
  if layout.minus then text ++ fill else fill ++ text

/-- The number of characters and stray bytes in a text. -/
def columns (text : Bytes) : Nat :=
  (Utf8.pieces text).length

/-- A text cut to as many characters as the precision allows. -/
def Layout.truncate (layout : Layout) (text : Bytes) : Bytes :=
  match layout.precision? with
  | none => text
  | some n => ((Utf8.pieces text).take n).flatMap Utf8.Piece.bytes

/-- A text as it is. -/
def Layout.plain (layout : Layout) (text : Bytes) : Bytes :=
  let text := layout.truncate text
  layout.pad (columns text) text

/-- A text in quotes. -/
def Layout.quoted (layout : Layout) (text : Bytes) : Bytes :=
  let text := layout.truncate text
  let inQuotes :=
    if layout.plus then Text.quotedAscii text else Text.quoted text
  let shown :=
    if layout.sharp then (Text.backquoted? text).getD inQuotes else inQuotes
  layout.pad (columns shown) shown

/-- The two hexadecimal digits of a byte. -/
def hexPair (upper : Bool) (b : UInt8) : Bytes :=
  let digits := Text.hexDigits 2 b.toNat
  if upper then digits.map fun d => if 97 ≤ d then d - 32 else d else digits

/-- A text in hexadecimal. The sharp flag marks the number, and together with the space flag,
which parts the bytes, it marks each of them. -/
def Layout.hex (layout : Layout) (upper : Bool) (text : Bytes) : Bytes :=
  let bytes := text.take (layout.precision?.getD text.length)
  let mark := if layout.sharp then utf8 (if upper then "0X" else "0x") else []
  let shown :=
    if layout.space then
      Bytes.join (utf8 " ") (bytes.map fun b => mark ++ hexPair upper b)
    else mark ++ bytes.flatMap (hexPair upper)
  let shown := if bytes.isEmpty then [] else shown
  layout.pad shown.length shown

/-! ### Verbs -/

/-- The name that messages give to the type of the argument. -/
def argumentType : Bytes := utf8 "types.ExportFormat"

/-- The character that stands for a byte sequence's first piece, and the bytes after it. -/
def readVerb (b : UInt8) (rest : Bytes) : Char × Bytes :=
  match Utf8.pieces ((b :: rest).take 4) with
  | .char c :: _ => (c, (b :: rest).drop (String.utf8EncodeChar c).length)
  | _ => ('\ufffd', rest)

/-- A complaint about a verb. -/
def complaint (verb : Char) (words : Bytes) : Bytes :=
  utf8 "%!" ++ utf8Chars [verb] ++ utf8 "(" ++ words ++ utf8 ")"

/-- The complaint about a verb that does not suit the argument. -/
def unsuited (verb : Char) (shown : Bytes) : Bytes :=
  complaint verb (argumentType ++ utf8 "=" ++ shown)

/-- The argument as a verb shows it. -/
def display (layout : Layout) (verb : Char) (argument : Bytes) : Bytes :=
  let general : Layout := { layout with sharp := false, plus := false }
  let shownGeneral := if layout.sharp then general.quoted argument else general.plain argument
  match verb with
  | 'v' => shownGeneral
  | 's' => layout.plain argument
  | 'q' => layout.quoted argument
  | 'x' => layout.hex false argument
  | 'X' => layout.hex true argument
  | 'T' => layout.plain argumentType
  | 'w' => unsuited verb shownGeneral
  | _ => unsuited verb (layout.plain argument)

/-! ### Reading a directive -/

/-- Reads flags. -/
def readFlags (layout : Layout) : Bytes → Layout × Bytes
  | [] => (layout, [])
  | b :: rest =>
    if b = 35 then readFlags { layout with sharp := true } rest
    else if b = 48 then readFlags { layout with zero := true } rest
    else if b = 43 then readFlags { layout with plus := true } rest
    else if b = 45 then readFlags { layout with minus := true } rest
    else if b = 32 then readFlags { layout with space := true } rest
    else (layout, b :: rest)

/-- The largest number that may still grow by a digit. -/
def maxNumber : Nat := 1000000

/-- Reads a number. A number that grows too large takes the rest of the text with it. -/
def readNumber (soFar : Option Nat) : Bytes → Option Nat × Bytes
  | [] => (soFar, [])
  | b :: rest =>
    if !Byte.isDigit b then (soFar, b :: rest)
    else if maxNumber < soFar.getD 0 then (none, [])
    else readNumber (some (soFar.getD 0 * 10 + (b.toNat - 48))) rest

/-- How far the template has come: which argument is next, counted from zero, and whether an
index has been used. -/
structure Position where
  argument : Nat := 0
  reordered : Bool := false
  deriving DecidableEq, Repr

/-- What reading an optional index yields. -/
structure Index where
  position : Position
  /-- Whether an index was read. -/
  found : Bool := false
  /-- Whether the directive can still be shown. -/
  valid : Bool := true
  rest : Bytes
  deriving DecidableEq, Repr

/-- Reads an optional index in brackets. Only the first argument exists. -/
def readIndex (position : Position) (s : Bytes) : Index :=
  match s with
  | 91 :: tail =>
    let position := { position with reordered := true }
    let inside := tail.takeWhile (· ≠ 93)
    match tail.dropWhile (· ≠ 93) with
    | [] => { position, valid := false, rest := tail }
    | _ :: after =>
      if s.length < 3 then { position, valid := false, rest := tail }
      else
        match readNumber none inside with
        | (some 1, []) =>
          { position := { position with argument := 0 }, found := true, rest := after }
        | (some _, []) => { position, found := true, valid := false, rest := after }
        | _ => { position, valid := false, rest := after }
  | _ => { position, rest := s }

/-- A directive as far as its width: the complaints so far, the layout, and the index state. -/
structure Partial where
  output : Bytes := []
  layout : Layout
  index : Index
  deriving DecidableEq, Repr

/-- The position after an argument has been taken for a width or a precision. -/
def Position.skip (position : Position) : Position :=
  { position with argument := max position.argument 1 }

/-- Reads the width. An argument asked for here is no number. -/
def readWidth (layout : Layout) (index : Index) : Partial :=
  match index.rest with
  | 42 :: tail =>
    { output := utf8 "%!(BADWIDTH)"
      layout
      index := { index with position := index.position.skip, found := false, rest := tail } }
  | s =>
    let (width?, rest) := readNumber none s
    { layout := { layout with width? }
      index := { index with valid := index.valid && !(index.found && width?.isSome), rest } }

/-- Reads the precision after a point. An argument asked for here is no number. -/
def readPrecision (p : Partial) : Partial :=
  match p.index.rest with
  | 46 :: b :: tail =>
    let valid := p.index.valid && !p.index.found
    let index := readIndex p.index.position (b :: tail)
    match index.rest with
    | 42 :: after =>
      { output := p.output ++ utf8 "%!(BADPREC)"
        layout := p.layout
        index :=
          { position := index.position.skip
            found := false
            valid := valid && index.valid
            rest := after } }
    | s =>
      let (precision?, rest) := readNumber none s
      { output := p.output
        layout := { p.layout with precision? := some (precision?.getD 0) }
        index := { index with valid := valid && index.valid, rest } }
  | _ => p

/-- Reads the index before the verb, unless the last thing read was an index. -/
def readLastIndex (p : Partial) : Partial :=
  if p.index.found then p
  else
    let index := readIndex p.index.position p.index.rest
    { p with index := { index with valid := p.index.valid && index.valid } }

/-- Reads everything of a directive before its verb. -/
def readHead (position : Position) (s : Bytes) : Partial :=
  let (layout, rest) := readFlags {} s
  readLastIndex (readPrecision (readWidth layout (readIndex position rest)))

/-- Shows one directive, given the text after its percent sign: what it leaves in the output,
the position after it, and the text after it. -/
def directive (argument : Bytes) (position : Position) (s : Bytes) : Bytes × Position × Bytes :=
  let head := readHead position s
  let position := head.index.position
  match head.index.rest with
  | [] => (head.output ++ utf8 "%!(NOVERB)", position, [])
  | b :: tail =>
    let (verb, rest) := readVerb b tail
    if verb = '%' then (head.output ++ utf8 "%", position, rest)
    else if !head.index.valid then
      (head.output ++ complaint verb (utf8 "BADINDEX"), position, rest)
    else if 0 < position.argument then
      (head.output ++ complaint verb (utf8 "MISSING"), position, rest)
    else
      (head.output ++ display head.layout verb argument, { position with argument := 1 }, rest)

/-! ### Filling a template -/

/-- What follows a template that has not used its argument. -/
def leftover (argument : Bytes) (position : Position) : Bytes :=
  if !position.reordered && position.argument = 0 then
    utf8 "%!(EXTRA " ++ argumentType ++ utf8 "=" ++ argument ++ utf8 ")"
  else []

/-- Fills a template from a position on. The fuel bounds the number of bytes and directives. -/
def fillFrom (argument : Bytes) : Nat → Position → Bytes → Bytes
  | 0, position, _ => leftover argument position
  | _ + 1, position, [] => leftover argument position
  | fuel + 1, position, b :: rest =>
    if b = 37 then
      let (output, position', rest') := directive argument position rest
      output ++ fillFrom argument fuel position' rest'
    else b :: fillFrom argument fuel position rest

/-- A template filled with its argument. -/
def fill (template argument : Bytes) : Bytes :=
  fillFrom argument template.length {} template

end DocHarvest.Template
