import DocHarvest.Shell.Command

/-!
# Shell Patterns

Patterns match texts: a star any text, a question mark any character, brackets one of several
characters, and everything else itself. What is quoted always stands for itself.
-/

namespace DocHarvest.Shell

/-- Characters, each with whether it is quoted. -/
abbrev Marked := List (Char × Bool)

/-- Characters that are all quoted, or all not. -/
def Marked.of (quoted : Bool) (s : Chars) : Marked :=
  s.map fun c => (c, quoted)

/-- The characters alone. -/
def Marked.chars (s : Marked) : Chars :=
  s.map Prod.fst

/-- An element of a pattern. -/
inductive Glyph
  | exactly (c : Char)
  | any
  | many
  | among (negated : Bool) (ranges : List (Char × Char))
  deriving DecidableEq, Repr

/-- The ranges that characters between brackets stand for. -/
def ranges : Chars → List (Char × Char)
  | a :: '-' :: b :: rest => (a, b) :: ranges rest
  | a :: rest => (a, a) :: ranges rest
  | [] => []

/-- The characters up to the bracket that closes a set, of which there has to be one, and what
follows it. -/
def readSet : Marked → Option (Bool × List (Char × Char) × Marked)
  | s =>
    let (negated, s) :=
      match s with
      | ('!', false) :: rest => (true, rest)
      | _ => (false, s)
    match s with
    | [] => none
    | first :: rest =>
      let inner := rest.takeWhile (· ≠ (']', false))
      match rest.drop inner.length with
      | [] => none
      | _ :: after => some (negated, ranges (Marked.chars (first :: inner)), after)

/-- The elements of a pattern. The fuel bounds their number. -/
def glyphs : Nat → Marked → List Glyph
  | 0, _ => []
  | fuel + 1, s =>
    match s with
    | [] => []
    | ('*', false) :: rest => .many :: glyphs fuel rest
    | ('?', false) :: rest => .any :: glyphs fuel rest
    | ('[', false) :: rest =>
      match readSet rest with
      | some (negated, ranges, after) => .among negated ranges :: glyphs fuel after
      | none => .exactly '[' :: glyphs fuel rest
    | (c, _) :: rest => .exactly c :: glyphs fuel rest

/-- The pattern that characters spell. -/
def pattern (s : Marked) : List Glyph :=
  glyphs s.length s

/-- Whether one character belongs to an element that stands for one. -/
def Glyph.accepts (c : Char) : Glyph → Bool
  | exactly d => c = d
  | any => true
  | many => false
  | among negated ranges => (ranges.any fun (a, b) => a ≤ c && c ≤ b) != negated

/-- A text and everything that is left of it when characters are dropped at the start. -/
def suffixes : Chars → List Chars
  | [] => [[]]
  | c :: rest => (c :: rest) :: suffixes rest

/-- Whether a pattern matches a whole text. -/
def isMatch : List Glyph → Chars → Bool
  | [], s => s.isEmpty
  | .many :: rest, s => (suffixes s).any fun suffix => isMatch rest suffix
  | glyph :: rest, c :: s => glyph.accepts c && isMatch rest s
  | _ :: _, [] => false

/-- A text without the piece at its start that a pattern matches, the longest or the shortest. -/
def dropMatch (longest : Bool) (glyphs : List Glyph) (s : Chars) : Chars :=
  let cuts := (List.range (s.length + 1)).filter fun n => isMatch glyphs (s.take n)
  match if longest then cuts.getLast? else cuts.head? with
  | some n => s.drop n
  | none => s

/-- A text without the piece at its end that a pattern matches, the longest or the shortest. -/
def dropEndMatch (longest : Bool) (glyphs : List Glyph) (s : Chars) : Chars :=
  let cuts := (List.range (s.length + 1)).filter fun n => isMatch glyphs (s.drop n)
  match if longest then cuts.head? else cuts.getLast? with
  | some n => s.take n
  | none => s

end DocHarvest.Shell
