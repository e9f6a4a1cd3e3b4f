import DocHarvest.Shell.Token

/-!
# Shell Scripts

The commands that the tokens of a script form. A script is read line by line: a mistake in one
line does not keep the lines before it from being run.

## Main definitions

* `Shell.Mistake` — what is wrong with a script, and where.
* `Shell.Script` — the commands of a script, up to the first mistake.
* `Shell.script` — the script that a text spells.
-/

namespace DocHarvest.Shell

/-- What is wrong with a script, and in which line. -/
structure Mistake where
  line : Nat
  words : Chars
  deriving DecidableEq, Repr

/-- The commands of a script, and the mistake after them if there is one. -/
structure Script where
  commands : List Command := []
  mistake? : Option Mistake := none
  deriving Repr

/-! ### Tokens that tell commands apart -/

/-- The text of a word that is not quoted and holds no expansion. -/
def Token.bare? : Token → Option Chars
  | .word [.text s false] => some s
  | _ => none

/-- Words that have a meaning of their own where a command could start. -/
def reservedWords : List String :=
  ["if", "then", "elif", "else", "fi", "while", "until", "do", "done", "for", "case", "esac",
    "\x7b", "\x7d", "!"]

/-- The reserved word or the mark that a token is. -/
def Token.sign? (token : Token) : Option String :=
  match token with
  | .mark sign => some sign
  | _ =>
    match token.bare? with
    | some s => reservedWords.find? fun word => word.toList = s
    | none => none

/-- The sign at the start of some tokens. -/
def signAt (tokens : List Placed) : Option String :=
  tokens.head?.bind fun placed => placed.token.sign?

/-- How a mistake speaks of a token. -/
def Token.display : Token → Chars
  | .lineEnd => "newline".toList
  | .redirection .. => "redirection".toList
  | .mark sign => '"' :: sign.toList ++ ['"']
  | .word parts =>
    match Token.sign? (.word parts) with
    | some sign => '"' :: sign.toList ++ ['"']
    | none => "word".toList

/-- The mistake of a token that does not belong where it is. -/
def unexpected (lastLine : Nat) (tokens : List Placed) : Mistake :=
  match tokens with
  | [] => ⟨lastLine, "end of file unexpected".toList⟩
  | placed :: _ => ⟨placed.line, placed.token.display ++ " unexpected".toList⟩

/-- The tokens after a sign that has to stand here. -/
def expect (lastLine : Nat) (sign : String) (tokens : List Placed) :
    Except Mistake (List Placed) :=
  if signAt tokens = some sign then .ok (tokens.drop 1) else .error (unexpected lastLine tokens)

/-- The tokens after line ends. -/
def skipLines (tokens : List Placed) : List Placed :=
  tokens.dropWhile fun placed =>
    match placed.token with
    | .lineEnd => true
    | _ => false

/-- The tokens after line ends and a semicolon before them. -/
def skipSeparators (tokens : List Placed) : List Placed :=
  skipLines (if signAt tokens = some ";" then tokens.drop 1 else tokens)

/-! ### Simple commands -/

/-- The assignment that a word is: a name, an equals sign and a value. -/
def assignment? (word : Word) : Option (Chars × Word) :=
  match word with
  | .text s false :: parts =>
    let name := s.takeWhile (· ≠ '=')
    match isName name, s.drop name.length with
    | true, _ :: value => some (name, if value.isEmpty then parts else .text value false :: parts)
    | _, _ => none
  | _ => none

/-- Reads the words and redirections of a simple command. -/
def readSimple (lastLine line : Nat) (assignments : List (Chars × Word)) (words : List Word)
    (redirections : List Redirection) : List Placed → Except Mistake (Command × List Placed)
  | ⟨_, .redirection descriptor direction⟩ :: ⟨_, .word target⟩ :: rest =>
    readSimple lastLine line assignments words (redirections ++ [⟨descriptor, direction, target⟩])
      rest
  | ⟨_, .redirection ..⟩ :: rest => .error (unexpected lastLine rest)
  | ⟨_, .word word⟩ :: rest =>
    match words, assignment? word with
    | [], some assignment =>
      readSimple lastLine line (assignments ++ [assignment]) words redirections rest
    | _, _ => readSimple lastLine line assignments (words ++ [word]) redirections rest
  | rest =>
    if assignments.isEmpty && words.isEmpty && redirections.isEmpty then
      .error (unexpected lastLine rest)
    else .ok (.simple line assignments words redirections, rest)

/-- Reads the redirections after a command that holds others. -/
def readRedirections (lastLine : Nat) :
    List Placed → Except Mistake (List Redirection × List Placed)
  | ⟨_, .redirection descriptor direction⟩ :: ⟨_, .word target⟩ :: rest =>
    (readRedirections lastLine rest).map fun (others, rest) =>
      (⟨descriptor, direction, target⟩ :: others, rest)
  | ⟨_, .redirection ..⟩ :: rest => .error (unexpected lastLine rest)
  | rest => .ok ([], rest)

/-- Reads the words over which a loop goes, to the end of the line. -/
def readWordsToEnd (lastLine : Nat) : List Placed → Except Mistake (List Word × List Placed)
  | ⟨_, .word word⟩ :: rest =>
    (readWordsToEnd lastLine rest).map fun (words, rest) => (word :: words, rest)
  | ⟨_, .lineEnd⟩ :: rest => .ok ([], rest)
  | ⟨_, .mark ";"⟩ :: rest => .ok ([], rest)
  | rest => .error (unexpected lastLine rest)

/-- Reads the patterns of a case, up to the closing parenthesis. -/
def readPatterns (lastLine : Nat) : List Placed → Except Mistake (List Word × List Placed)
  | ⟨_, .word word⟩ :: ⟨_, .mark "|"⟩ :: rest =>
    (readPatterns lastLine rest).map fun (words, rest) => (word :: words, rest)
  | ⟨_, .word word⟩ :: ⟨_, .mark ")"⟩ :: rest => .ok ([word], rest)
  | ⟨_, .word _⟩ :: rest => .error (unexpected lastLine rest)
  | rest => .error (unexpected lastLine rest)

/-! ### Commands -/

/-- Whether a list of commands ends before a sign. -/
def endsList (sign? : Option String) : Bool :=
  match sign? with
  | some sign =>
    ["then", "elif", "else", "fi", "do", "done", "esac", "\x7d", ")", ";;"].contains sign
  | none => false

mutual

/-- Reads a list of commands, up to a sign that ends it. The fuel bounds the depth of the
recursion here and below. -/
def readList (lastLine : Nat) : Nat → List Placed → Except Mistake (List Command × List Placed)
  | 0, tokens => .error (unexpected lastLine tokens)
  | fuel + 1, tokens =>
    let tokens := skipLines tokens
    if tokens.isEmpty || endsList (signAt tokens) then .ok ([], tokens)
    else
      match readAndOr lastLine fuel tokens with
      | .error mistake => .error mistake
      | .ok (command, rest) =>
        let separated := signAt rest = some ";" || signAt rest = some "&"
        let rest := if separated then rest.drop 1 else rest
        (readList lastLine fuel rest).map fun (commands, rest) => (command :: commands, rest)

/-- Reads commands that depend on each other's success. -/
def readAndOr (lastLine : Nat) : Nat → List Placed → Except Mistake (Command × List Placed)
  | 0, tokens => .error (unexpected lastLine tokens)
  | fuel + 1, tokens =>
    match readPipeline lastLine fuel tokens with
    | .error mistake => .error mistake
    | .ok (first, rest) => readAndOrRest lastLine first fuel rest

/-- Reads what depends on the success of a command that has been read. -/
def readAndOrRest (lastLine : Nat) (first : Command) :
    Nat → List Placed → Except Mistake (Command × List Placed)
  | 0, tokens => .error (unexpected lastLine tokens)
  | fuel + 1, tokens =>
    let join? : Option (Command → Command → Command) :=
      if signAt tokens = some "&&" then some .both
      else if signAt tokens = some "||" then some .either
      else none
    match join? with
    | none => .ok (first, tokens)
    | some join =>
      match readPipeline lastLine fuel (skipLines (tokens.drop 1)) with
      | .error mistake => .error mistake
      | .ok (second, rest) => readAndOrRest lastLine (join first second) fuel rest

/-- Reads commands of which each reads what the one before prints. -/
def readPipeline (lastLine : Nat) : Nat → List Placed → Except Mistake (Command × List Placed)
  | 0, tokens => .error (unexpected lastLine tokens)
  | fuel + 1, tokens =>
    if signAt tokens = some "!" then
      (readPipeline lastLine fuel (tokens.drop 1)).map fun (command, rest) =>
        (.negated command, rest)
    else
      match readCommand lastLine fuel tokens with
      | .error mistake => .error mistake
      | .ok (first, rest) =>
        if signAt rest = some "|" then
          (readPipeline lastLine fuel (skipLines (rest.drop 1))).map fun (second, rest) =>
            (.piped first second, rest)
        else .ok (first, rest)

/-- Reads one command. -/
def readCommand (lastLine : Nat) : Nat → List Placed → Except Mistake (Command × List Placed)
  | 0, tokens => .error (unexpected lastLine tokens)
  | fuel + 1, tokens =>
    let line := (tokens.head?.map Placed.line).getD lastLine
    let finish (read : Except Mistake (Command × List Placed)) :
        Except Mistake (Command × List Placed) := do
      let (command, rest) ← read
      let (redirections, rest) ← readRedirections lastLine rest
      .ok (if redirections.isEmpty then command else .redirected line command redirections, rest)
    let body (opening closing : String) (tokens : List Placed) :
        Except Mistake (Command × List Placed) := do
      let (commands, rest) ← readList lastLine fuel (← expect lastLine opening tokens)
      if commands.isEmpty then .error (unexpected lastLine rest)
      else .ok (.sequence commands, ← expect lastLine closing rest)
    match signAt tokens with
    | some "if" => finish (readConditional lastLine fuel (tokens.drop 1))
    | some "while" => finish (readLoop lastLine false fuel (tokens.drop 1))
    | some "until" => finish (readLoop lastLine true fuel (tokens.drop 1))
    | some "for" =>
      match tokens.drop 1 with
      | ⟨_, token⟩ :: rest =>
        match token.bare? with
        | none => .error (unexpected lastLine (tokens.drop 1))
        | some name => finish do
          let named := (rest.head?.bind fun placed => placed.token.bare?) = some ['i', 'n']
          let (words, rest) ←
            if named then readWordsToEnd lastLine (rest.drop 1) else .ok ([], rest)
          let (inner, rest) ← body "do" "done" (skipSeparators rest)
          .ok (.each name (if named then some words else none) inner, rest)
      | [] => .error (unexpected lastLine [])
    | some "case" =>
      match tokens.drop 1 with
      | ⟨_, .word subject⟩ :: rest =>
        match skipLines rest with
        | ⟨_, token⟩ :: rest =>
          if token.bare? = some ['i', 'n'] then finish do
            let (cases, rest) ← readCases lastLine fuel (skipLines rest)
            .ok (.choice subject cases, rest)
          else .error (unexpected lastLine (skipLines rest))
        | [] => .error (unexpected lastLine [])
      | rest => .error (unexpected lastLine rest)
    | some "\x7b" => finish (body "\x7b" "\x7d" tokens)
    | some "(" => finish ((body "(" ")" tokens).map fun (inner, rest) => (.subshell inner, rest))
    | some _ => .error (unexpected lastLine tokens)
    | none =>
      match tokens with
      | ⟨_, token⟩ :: ⟨_, .mark "("⟩ :: ⟨_, .mark ")"⟩ :: rest =>
        match token.bare? with
        | some name =>
          (readCommand lastLine fuel (skipLines rest)).map fun (inner, rest) =>
            (.function name inner, rest)
        | none => .error (unexpected lastLine (tokens.drop 1))
      | _ => readSimple lastLine line [] [] [] tokens

/-- Reads a condition and what depends on it. -/
def readConditional (lastLine : Nat) : Nat → List Placed → Except Mistake (Command × List Placed)
  | 0, tokens => .error (unexpected lastLine tokens)
  | fuel + 1, tokens => do
    let (condition, rest) ← readList lastLine fuel tokens
    let (consequence, rest) ← readList lastLine fuel (← expect lastLine "then" rest)
    let (alternative, rest) ←
      match signAt rest with
      | some "elif" => readConditional lastLine fuel (rest.drop 1)
      | some "else" => do
        let (commands, rest) ← readList lastLine fuel (rest.drop 1)
        .ok (.sequence commands, ← expect lastLine "fi" rest)
      | _ => .ok (.skip, ← expect lastLine "fi" rest)
    .ok (.conditional (.sequence condition) (.sequence consequence) alternative, rest)

/-- Reads a loop that a condition controls. -/
def readLoop (lastLine : Nat) (negated : Bool) :
    Nat → List Placed → Except Mistake (Command × List Placed)
  | 0, tokens => .error (unexpected lastLine tokens)
  | fuel + 1, tokens => do
    let (condition, rest) ← readList lastLine fuel tokens
    let (body, rest) ← readList lastLine fuel (← expect lastLine "do" rest)
    .ok (.loop negated (.sequence condition) (.sequence body), ← expect lastLine "done" rest)

/-- Reads the cases of a choice. -/
def readCases (lastLine : Nat) :
    Nat → List Placed → Except Mistake (List (List Word × Command) × List Placed)
  | 0, tokens => .error (unexpected lastLine tokens)
  | fuel + 1, tokens =>
    if signAt tokens = some "esac" then .ok ([], tokens.drop 1)
    else do
      let tokens := if signAt tokens = some "(" then tokens.drop 1 else tokens
      let (patterns, rest) ← readPatterns lastLine tokens
      let (commands, rest) ← readList lastLine fuel rest
      if signAt rest = some ";;" then
        let (cases, rest) ← readCases lastLine fuel (skipLines (rest.drop 1))
        .ok ((patterns, .sequence commands) :: cases, rest)
      else .ok ([(patterns, .sequence commands)], ← expect lastLine "esac" rest)

end

/-! ### Scripts -/

/-- Reads the commands of one line, which may reach over several where a command is not
complete. -/
def readLine (lastLine : Nat) : Nat → List Placed → Except Mistake (List Command × List Placed)
  | 0, tokens => .error (unexpected lastLine tokens)
  | fuel + 1, tokens =>
    match readAndOr lastLine (2 * tokens.length + 2) tokens with
    | .error mistake => .error mistake
    | .ok (command, rest) =>
      match rest with
      | [] => .ok ([command], [])
      | ⟨_, .lineEnd⟩ :: rest => .ok ([command], rest)
      | _ =>
        if signAt rest = some ";" || signAt rest = some "&" then
          match rest.drop 1 with
          | [] => .ok ([command], [])
          | ⟨_, .lineEnd⟩ :: rest => .ok ([command], rest)
          | rest =>
            (readLine lastLine fuel rest).map fun (commands, rest) => (command :: commands, rest)
        else .error (unexpected lastLine rest)

/-- Reads the lines of a script. The fuel bounds their number. -/
def readScript (lastLine : Nat) : Nat → List Placed → Script
  | 0, _ => {}
  | fuel + 1, tokens =>
    let tokens := skipLines tokens
    if tokens.isEmpty then {}
    else
      match readLine lastLine tokens.length tokens with
      | .error mistake => { mistake? := some mistake }
      | .ok (commands, rest) =>
        let others := readScript lastLine fuel rest
        { others with commands := commands ++ others.commands }

/-- The script that a text spells. -/
def script (s : Chars) : Script :=
  let lastLine := s.count '\n' + 1
  let (found, complete) := tokens s
  let read := readScript lastLine (found.length + 1) found
  if complete then read
  else
    { read with
      mistake? := some ⟨lastLine, "Unterminated quoted string".toList⟩ }

end DocHarvest.Shell
