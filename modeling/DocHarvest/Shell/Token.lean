import DocHarvest.Shell.Command

/-!
# Shell Tokens

A script is cut into words, operators and line ends. Quotes and expansions are recognised inside
words.

## Main definitions

* `Shell.readParts` — the parts of a word.
* `Shell.Token` — the tokens.
* `Shell.tokens` — the tokens of a script.
-/

namespace DocHarvest.Shell

/-! ### Words -/

/-- A part in front of others, joined with the first of them where both are texts of one kind. -/
def joined (part : Part) (parts : Word) : Word :=
  match part, parts with
  | .text s true, .text t true :: rest => .text (s ++ t) true :: rest
  | .text s false, .text t false :: rest => .text (s ++ t) false :: rest
  | _, _ => part :: parts

/-- Splits a text at the parenthesis that closes as many as are open. -/
def closing : Nat → Chars → Option (Chars × Chars)
  | _, [] => none
  | depth, c :: rest =>
    match c, depth with
    | ')', 0 => some ([], rest)
    | ')', depth + 1 => (closing depth rest).map fun (inner, after) => (c :: inner, after)
    | '(', depth => (closing (depth + 1) rest).map fun (inner, after) => (c :: inner, after)
    | _, depth => (closing depth rest).map fun (inner, after) => (c :: inner, after)

/-- Parameters whose name is one sign. -/
def isSpecial (c : Char) : Bool :=
  ['@', '*', '#', '?', '$', '!', '-'].contains c

/-- The name of a parameter at the start of a text. -/
def parameterName (s : Chars) : Chars :=
  match s with
  | [] => []
  | c :: _ =>
    if isNameStart c then s.takeWhile isNameChar
    else if c.isDigit then s.takeWhile Char.isDigit
    else if isSpecial c then [c]
    else []

/-- The operator after a parameter's name, if it is not the end, and what follows. -/
def readOperator (s : Chars) : Option (Operator × Chars) :=
  match s with
  | ':' :: '-' :: rest => some (.fallback true, rest)
  | ':' :: '=' :: rest => some (.assignment true, rest)
  | ':' :: '+' :: rest => some (.replacement true, rest)
  | '-' :: rest => some (.fallback false, rest)
  | '=' :: rest => some (.assignment false, rest)
  | '+' :: rest => some (.replacement false, rest)
  | '%' :: '%' :: rest => some (.dropEnd true, rest)
  | '%' :: rest => some (.dropEnd false, rest)
  | '#' :: '#' :: rest => some (.dropStart true, rest)
  | '#' :: rest => some (.dropStart false, rest)
  | _ => none

/-- Whether the operand of an operator is a pattern. -/
def Operator.takesPattern : Operator → Bool
  | .dropEnd _ | .dropStart _ => true
  | _ => false

mutual

/-- Reads the parts of a word up to a character that ends it, or to the end. Nothing comes out
when a quote or an expansion is not closed. The fuel bounds the number of parts. -/
def readParts (quoted : Bool) (stop : Char → Bool) : Nat → Chars → Option (Word × Chars)
  | 0, _ => none
  | fuel + 1, s =>
    let onward (part : Part) (rest : Chars) : Option (Word × Chars) :=
      (readParts quoted stop fuel rest).map fun (parts, rest) => (joined part parts, rest)
    match s with
    | [] => some ([], [])
    | '\\' :: '\n' :: rest => readParts quoted stop fuel rest
    | '\\' :: c :: rest =>
      if quoted && !(['$', '\x60', '"', '\\'].contains c) then onward (.text ['\\', c] true) rest
      else onward (.text [c] true) rest
    | c :: rest =>
      if stop c then some ([], s)
      else if c = '\'' && !quoted then
        let inner := rest.takeWhile (· ≠ '\'')
        match rest.drop inner.length with
        | [] => none
        | _ :: after => onward (.text inner true) after
      else if c = '"' then
        match readParts true (· = '"') fuel rest with
        | some (parts, _ :: after) =>
          match readParts quoted stop fuel after with
          | some (others, rest) =>
            some (if parts.isEmpty then joined (.text [] true) others
              else parts.foldr joined others, rest)
          | none => none
        | _ => none
      else if c = '\x60' then
        let inner := rest.takeWhile (· ≠ '\x60')
        match rest.drop inner.length with
        | [] => none
        | _ :: after => onward (.output inner quoted) after
      else if c = '$' then
        match readDollar quoted fuel rest with
        | some (part, after) => onward part after
        | none => none
      else onward (.text [c] quoted) rest

/-- Reads an expansion whose sign has been read. -/
def readDollar (quoted : Bool) : Nat → Chars → Option (Part × Chars)
  | 0, _ => none
  | fuel + 1, s =>
    match s with
    | '(' :: '(' :: rest =>
      match closing 0 rest with
      | some (inner, ')' :: after) =>
        (readParts true (fun _ => false) fuel inner).map fun (parts, _) =>
          (.arithmetic parts quoted, after)
      | _ => none
    | '(' :: rest => (closing 0 rest).map fun (inner, after) => (.output inner quoted, after)
    | '\x7b' :: '#' :: rest =>
      let name := parameterName rest
      match name.isEmpty, rest.drop name.length with
      | false, '\x7d' :: after => some (.parameter name .length [] quoted, after)
      | _, _ => readBraces quoted fuel ('#' :: rest)
    | '\x7b' :: rest => readBraces quoted fuel rest
    | _ =>
      match s with
      | [] => some (.text ['$'] quoted, [])
      | c :: rest =>
        if c.isDigit then some (.parameter [c] .plain [] quoted, rest)
        else
          let name := parameterName s
          if name.isEmpty then some (.text ['$'] quoted, s)
          else some (.parameter name .plain [] quoted, s.drop name.length)

/-- Reads a parameter in braces whose opening brace has been read. -/
def readBraces (quoted : Bool) : Nat → Chars → Option (Part × Chars)
  | 0, _ => none
  | fuel + 1, s =>
    let name := parameterName s
    let rest := s.drop name.length
    if name.isEmpty then none
    else
      match rest with
      | '\x7d' :: after => some (.parameter name .plain [] quoted, after)
      | _ =>
        match readOperator rest with
        | none => none
        | some (operator, rest) =>
          match readParts (quoted && !operator.takesPattern) (· = '\x7d') fuel rest with
          | some (operand, _ :: after) => some (.parameter name operator operand quoted, after)
          | _ => none

end

/-! ### Tokens -/

/-- The tokens of a script. -/
inductive Token
  | word (word : Word)
  | redirection (descriptor : Nat) (direction : Direction)
  | mark (mark : String)
  | lineEnd
  deriving Repr

/-- A token and the number of its line. -/
structure Placed where
  line : Nat
  token : Token
  deriving Repr

/-- Whether a character ends a word. -/
def endsWord (c : Char) : Bool :=
  [' ', '\t', '\n', ';', '&', '|', '<', '>', '(', ')'].contains c

/-- The redirection at the start of a text. -/
def readRedirection (s : Chars) : Option (Direction × Chars) :=
  match s with
  | '>' :: '>' :: rest => some (.append, rest)
  | '>' :: '&' :: rest => some (.copy, rest)
  | '>' :: '|' :: rest => some (.output, rest)
  | '>' :: rest => some (.output, rest)
  | '<' :: '&' :: rest => some (.copy, rest)
  | '<' :: rest => some (.input, rest)
  | _ => none

/-- The mark at the start of a text. -/
def readMark (s : Chars) : Option (String × Chars) :=
  match s with
  | ';' :: ';' :: rest => some (";;", rest)
  | ';' :: rest => some (";", rest)
  | '&' :: '&' :: rest => some ("&&", rest)
  | '&' :: rest => some ("&", rest)
  | '|' :: '|' :: rest => some ("||", rest)
  | '|' :: rest => some ("|", rest)
  | '(' :: rest => some ("(", rest)
  | ')' :: rest => some (")", rest)
  | _ => none

/-- The descriptor that a redirection has when none is written. -/
def usualDescriptor (s : Chars) : Nat :=
  if s.head? = some '<' then 0 else 1

/-- The redirection at the start of a text, with its descriptor. -/
def readDescribed (s : Chars) : Option (Nat × Direction × Chars) :=
  let digits := s.takeWhile Char.isDigit
  let rest := s.drop digits.length
  let descriptor :=
    if digits.isEmpty then usualDescriptor rest
    else digits.foldl (fun n c => n * 10 + (c.toNat - 48)) 0
  (readRedirection rest).map fun (direction, rest) => (descriptor, direction, rest)

/-- Cuts a script into tokens; the flag says whether its last word is complete. The fuel bounds
the number of tokens. -/
def readTokens : Nat → Nat → Chars → List Placed × Bool
  | 0, _, _ => ([], true)
  | fuel + 1, line, s =>
    let onward (token : Token) (lines : Nat) (rest : Chars) : List Placed × Bool :=
      let (others, complete) := readTokens fuel (line + lines) rest
      (⟨line, token⟩ :: others, complete)
    match s with
    | [] => ([], true)
    | '\n' :: rest => onward .lineEnd 1 rest
    | '\\' :: '\n' :: rest => readTokens fuel (line + 1) rest
    | c :: rest =>
      if c = ' ' || c = '\t' then readTokens fuel line rest
      else if c = '#' then readTokens fuel line (rest.dropWhile (· ≠ '\n'))
      else
        match readDescribed s, readMark s with
        | some (descriptor, direction, rest), _ =>
          onward (.redirection descriptor direction) 0 rest
        | none, some (mark, rest) => onward (.mark mark) 0 rest
        | none, none =>
          match readParts false endsWord (s.length + 1) s with
          | none => ([], false)
          | some (word, rest) =>
            onward (.word word) ((s.take (s.length - rest.length)).count '\n') rest

/-- The tokens of a script, and whether its last word is complete. -/
def tokens (s : Chars) : List Placed × Bool :=
  readTokens (s.length + 1) 1 s

end DocHarvest.Shell
