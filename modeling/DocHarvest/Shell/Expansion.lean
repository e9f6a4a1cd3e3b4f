import DocHarvest.Shell.Arithmetic
import DocHarvest.Shell.Pattern
import DocHarvest.Shell.State
import DocHarvest.Shell.Token

/-!
# Expansion of Words

What the words of a command become before it runs. Parameters, arithmetic and the output of
commands are put in; what was put in without quotes is split into fields at blanks, and a field
that is a pattern becomes the names of the files it matches.

## Main definitions

* `Shell.Piece` — what a word consists of after expansion.
* `Shell.expandParts` — the pieces of a word.
* `Shell.fields` — the fields that pieces form.
-/

namespace DocHarvest.Shell

/-- What a word consists of after expansion: text that stays as it is, text that may be split, and
places where a field ends. -/
inductive Piece
  | fixed (s : Marked)
  | loose (s : Chars)
  | cut
  deriving DecidableEq, Repr

/-! ### Parameters -/

/-- The value of a parameter that stands for one text, if it is set. -/
def valueOf? (state : State) (name : Chars) : Option Chars :=
  match name with
  | ['#'] => some (Chars.ofBytes (decimalNat state.arguments.length))
  | ['?'] => some (Chars.ofBytes (decimalNat state.status))
  | ['0'] => some state.name
  | ['$'] => some ['1']
  | ['!'] => none
  | ['-'] => some []
  | ['*'] | ['@'] =>
    if state.arguments.isEmpty then none
    else some (List.intercalate [' '] state.arguments)
  | c :: _ =>
    if c.isDigit then
      state.arguments[name.foldl (fun n c => n * 10 + (c.toNat - 48)) 0 - 1]?
    else state.get? name
  | [] => none

/-- The pieces of a text that was put in. -/
def insertedPieces (quoted : Bool) (s : Chars) : List Piece :=
  if quoted then [.fixed (Marked.of true s)] else [.loose s]

/-- The pieces that texts become which stand for several arguments. Between quotes they stay whole
and part fields. -/
def severalPieces (quoted : Bool) (texts : List Chars) : List Piece :=
  (texts.map (insertedPieces quoted)).intersperse [Piece.cut] |>.flatten

/-- The text of pieces that are not split. -/
def Piece.marked : Piece → Marked
  | .fixed s => s
  | .loose s => Marked.of false s
  | .cut => [(' ', false)]

/-- The text of pieces that are not split. -/
def unsplit (pieces : List Piece) : Marked :=
  pieces.flatMap Piece.marked

/-! ### Words -/

/-- How the output of commands is found: the commands, the state before and after. -/
abbrev Runner := Chars → State → Chars × State

mutual

/-- The pieces that a part becomes. -/
def expandPart (runner : Runner) (state : State) : Part → List Piece × State
  | .text s quoted => ([.fixed (Marked.of quoted s)], state)
  | .output source quoted =>
    let (s, state) := runner source state
    (insertedPieces quoted s, state)
  | .arithmetic expression quoted =>
    let (pieces, state) := expandParts runner state expression
    match Arithmetic.evaluate? state.bindings (unsplit pieces).chars with
    | some (s, bindings) => (insertedPieces quoted s, { state with bindings })
    | none => (insertedPieces quoted ['0'], { state with status := 2 })
  | .parameter name operator operand quoted =>
    let value? := valueOf? state name
    let value := value?.getD []
    let missing (emptyToo : Bool) : Bool := value?.isNone || (emptyToo && value.isEmpty)
    let whole : List Piece :=
      if name = ['@'] || (name = ['*'] && !quoted) then severalPieces quoted state.arguments
      else insertedPieces quoted value
    match operator with
    | .plain => (whole, state)
    | .length => (insertedPieces quoted (Chars.ofBytes (decimalNat value.length)), state)
    | .fallback emptyToo =>
      if missing emptyToo then expandParts runner state operand else (whole, state)
    | .assignment emptyToo =>
      if missing emptyToo then
        let (pieces, state) := expandParts runner state operand
        (pieces, state.assign name (unsplit pieces).chars)
      else (whole, state)
    | .replacement emptyToo =>
      if missing emptyToo then ([], state) else expandParts runner state operand
    | .dropEnd longest =>
      let (pieces, state) := expandParts runner state operand
      (insertedPieces quoted (dropEndMatch longest (pattern (unsplit pieces)) value), state)
    | .dropStart longest =>
      let (pieces, state) := expandParts runner state operand
      (insertedPieces quoted (dropMatch longest (pattern (unsplit pieces)) value), state)

/-- The pieces that parts become. -/
def expandParts (runner : Runner) (state : State) : List Part → List Piece × State
  | [] => ([], state)
  | part :: parts =>
    let (first, state) := expandPart runner state part
    let (others, state) := expandParts runner state parts
    (first ++ others, state)

end

/-! ### Fields -/

/-- Whether fields are parted at a character. -/
def partsFields (c : Char) : Bool :=
  c = ' ' || c = '\t' || c = '\n'

/-- Fields under construction: those that are complete, and the one that is not. -/
structure Fields where
  complete : List Marked := []
  current? : Option Marked := none

/-- Completes the current field. -/
def Fields.cut (fields : Fields) : Fields :=
  match fields.current? with
  | some s => { complete := fields.complete ++ [s] }
  | none => fields

/-- Adds to the current field. -/
def Fields.extend (fields : Fields) (s : Marked) : Fields :=
  { fields with current? := some (fields.current?.getD [] ++ s) }

/-- Adds a piece. A text that stays as it is makes a field even when it is empty. -/
def Fields.add (fields : Fields) : Piece → Fields
  | .fixed s => fields.extend s
  | .cut => fields.cut
  | .loose s =>
    s.foldl
      (fun fields c => if partsFields c then fields.cut else fields.extend [(c, false)]) fields

/-- The fields that pieces form. -/
def fields (pieces : List Piece) : List Marked :=
  (pieces.foldl Fields.add {}).cut.complete

/-! ### Names of files -/

/-- Whether a field holds a character that matches others. -/
def isPattern (field : Marked) : Bool :=
  field.any fun mark => mark = ('*', false) || mark = ('?', false) || mark = ('[', false)

/-- Whether a text does not come after another when their characters are compared in order. -/
def notAfter : Chars → Chars → Bool
  | [], _ => true
  | _ :: _, [] => false
  | a :: s, b :: t => a.toNat < b.toNat || (a = b && notAfter s t)

/-- The names in the working directory that a pattern without a slash matches, in order. -/
def matchingNames (state : State) (field : Marked) : List Chars :=
  let directory := state.tree.workingDirectory
  let names := state.tree.entries.filterMap fun (location, _) =>
    if !location.isEmpty && location.dropLast = directory then
      location.getLast?.map Chars.ofBytes
    else none
  let hidden := field.head?.map Prod.fst = some '.'
  let found := names.filter fun name =>
    (hidden || name.head? ≠ some '.') && isMatch (pattern field) name
  found.mergeSort notAfter

/-- The texts that a field stands for: the files it matches, or itself. -/
def fieldTexts (state : State) (field : Marked) : List Chars :=
  if isPattern field && !field.chars.contains '/' then
    match matchingNames state field with
    | [] => [field.chars]
    | names => names
  else [field.chars]

/-- The texts that words become. -/
def expandWords (runner : Runner) (state : State) : List Word → List Chars × State
  | [] => ([], state)
  | word :: words =>
    let (pieces, state) := expandParts runner state word
    let texts := (fields pieces).flatMap (fieldTexts state)
    let (others, state) := expandWords runner state words
    (texts ++ others, state)

/-- The one text that a word becomes where it is not split. -/
def expandWhole (runner : Runner) (state : State) (word : Word) : Marked × State :=
  let (pieces, state) := expandParts runner state word
  (unsplit pieces, state)

end DocHarvest.Shell
