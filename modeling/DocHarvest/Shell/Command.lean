import DocHarvest.Bytes

/-!
# Shell Commands

The commands of a shell script, as far as scripts that stand in for a formatter use them: simple
commands with assignments and redirections, lists, conditions, loops, choices and functions.

Texts are lists of characters that stand for one byte each.

## Main definitions

* `Shell.Part`, `Shell.Word` — words, with the expansions in them.
* `Shell.Command` — the commands.
-/

namespace DocHarvest.Shell

/-- A text in which every character stands for one byte. -/
abbrev Chars := List Char

/-- The characters that stand for bytes. -/
def Chars.ofBytes (s : Bytes) : Chars :=
  s.map fun b => Char.ofNat b.toNat

/-- The bytes that characters stand for. -/
def Chars.toBytes (s : Chars) : Bytes :=
  s.map fun c => UInt8.ofNat c.toNat

/-- What is done with the value of a parameter. -/
inductive Operator
  | plain
  | length
  /-- Another word stands in when the parameter is not set. -/
  | fallback (emptyToo : Bool)
  /-- As before, and the parameter is set to that word. -/
  | assignment (emptyToo : Bool)
  /-- Another word stands in when the parameter is set. -/
  | replacement (emptyToo : Bool)
  /-- A piece that a pattern matches is dropped at the end. -/
  | dropEnd (longest : Bool)
  /-- A piece that a pattern matches is dropped at the start. -/
  | dropStart (longest : Bool)
  deriving DecidableEq, Repr

/-- A part of a word. Quoted parts are not split, and match only themselves. -/
inductive Part
  | text (s : Chars) (quoted : Bool)
  | parameter (name : Chars) (operator : Operator) (operand : List Part) (quoted : Bool)
  | arithmetic (expression : List Part) (quoted : Bool)
  | output (source : Chars) (quoted : Bool)
  deriving Repr

/-- A word: parts written without a blank between them. -/
abbrev Word := List Part

/-- What a redirection does. -/
inductive Direction
  | input
  | output
  | append
  | copy
  deriving DecidableEq, Repr

/-- A redirection of an input or output to what a word names. -/
structure Redirection where
  descriptor : Nat
  direction : Direction
  target : Word
  deriving Repr

/-- A command. -/
inductive Command
  | simple (line : Nat) (assignments : List (Chars × Word)) (words : List Word)
      (redirections : List Redirection)
  | sequence (commands : List Command)
  | subshell (body : Command)
  | conditional (condition consequence alternative : Command)
  | loop (negated : Bool) (condition body : Command)
  | each (name : Chars) (words? : Option (List Word)) (body : Command)
  | choice (subject : Word) (cases : List (List Word × Command))
  | function (name : Chars) (body : Command)
  | both (first second : Command)
  | either (first second : Command)
  | negated (command : Command)
  | piped (first second : Command)
  | redirected (line : Nat) (command : Command) (redirections : List Redirection)
  deriving Repr

/-- The command that does nothing. -/
def Command.skip : Command := .sequence []

/-! ### Names -/

/-- Whether a character may start a name. -/
def isNameStart (c : Char) : Bool :=
  c.isAlpha || c = '_'

/-- Whether a character may stand in a name. -/
def isNameChar (c : Char) : Bool :=
  c.isAlphanum || c = '_'

/-- Whether a text is a name. -/
def isName : Chars → Bool
  | [] => false
  | c :: rest => isNameStart c && rest.all isNameChar

end DocHarvest.Shell
