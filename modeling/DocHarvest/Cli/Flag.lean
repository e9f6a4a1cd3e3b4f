import DocHarvest.Request
import DocHarvest.Text.Quoted

/-!
# Flags

The flags of the command line, and what a list of arguments makes of them. A flag has a name,
which follows two hyphens, and may have a letter, which follows one; letters can be written
together. Flags and sources may be mixed, and two hyphens alone end the flags.

## Main definitions

* `Flag` — the flags.
* `Options` — the values of all flags, and the sources.
* `FlagError` — why arguments are refused.
* `Options.parse` — the options that arguments give.
-/

namespace DocHarvest

/-- The flags of the command line, in the order in which they are listed. -/
inductive Flag
  | config
  | help
  | html
  | org
  | pdf
  | pot
  | stem
  | showConfig
  | verbose
  | version
  deriving DecidableEq, Repr

namespace Flag

/-- The name of a flag. -/
def name : Flag → String
  | config => "config"
  | help => "help"
  | html => "html"
  | org => "org"
  | pdf => "pdf"
  | pot => "pot"
  | stem => "prefix"
  | showConfig => "show-config"
  | verbose => "verbose"
  | version => "version"

/-- The letter of a flag that has one. -/
def letter? : Flag → Option Char
  | html => some 'h'
  | org => some 'o'
  | pdf => some 'p'
  | pot => some 't'
  | stem => some 'c'
  | verbose => some 'v'
  | _ => none

/-- Whether a flag takes a text; the others are either on or off. -/
def takesText : Flag → Bool
  | config | stem => true
  | _ => false

/-- All flags. -/
def all : List Flag :=
  [config, help, html, org, pdf, pot, stem, showConfig, verbose, version]

/-- The flag with a name. -/
def ofName? (name : Bytes) : Option Flag :=
  all.find? fun flag => utf8 flag.name = name

/-- The flag with a letter. -/
def ofLetter? (letter : UInt8) : Option Flag :=
  all.find? fun flag => (flag.letter?.map fun c => utf8Chars [c]) = some [letter]

/-- How messages call a flag. -/
def title (flag : Flag) : Bytes :=
  match flag.letter? with
  | some letter => utf8 "-" ++ utf8Chars [letter] ++ utf8 ", --" ++ utf8 flag.name
  | none => utf8 "--" ++ utf8 flag.name

end Flag

/-- Why arguments are refused. -/
inductive FlagError
  | unknownName (name : Bytes)
  | unknownLetter (letter : UInt8) (cluster : Bytes)
  | nameNeedsText (name : Bytes)
  | letterNeedsText (letter : UInt8) (cluster : Bytes)
  | badSyntax (argument : Bytes)
  | invalid (flag : Flag) (value : Bytes)
  deriving DecidableEq, Repr

/-- The words for refused arguments. A letter is one byte, whatever it belongs to. -/
def FlagError.message : FlagError → Bytes
  | unknownName name => utf8 "unknown flag: --" ++ name
  | unknownLetter letter cluster =>
    utf8 "unknown shorthand flag: " ++ quotedLetter letter ++ utf8 " in -" ++ cluster
  | nameNeedsText name => utf8 "flag needs an argument: --" ++ name
  | letterNeedsText letter cluster =>
    utf8 "flag needs an argument: " ++ quotedLetter letter ++ utf8 " in -" ++ cluster
  | badSyntax argument => utf8 "bad flag syntax: " ++ argument
  | invalid flag value =>
    utf8 "invalid argument " ++ Text.quoted value ++ utf8 " for " ++ Text.quoted flag.title ++
      utf8 " flag: strconv.ParseBool: parsing " ++ Text.quoted value ++ utf8 ": invalid syntax"
where
  /-- A letter between single quotes. -/
  quotedLetter (letter : UInt8) : Bytes := Text.quotedChar (Char.ofNat letter.toNat)

/-- The values of all flags, and the sources. -/
structure Options where
  config : Bytes := []
  help : Bool := false
  html : Bool := false
  org : Bool := false
  pdf : Bool := false
  pot : Bool := false
  stem : Bytes := []
  showConfig : Bool := false
  verbose : Bool := false
  version : Bool := false
  sources : List Bytes := []
  deriving DecidableEq, Repr

namespace Options

/-! ### Values -/

/-- The ways to write that a flag is on. -/
def onWords : List Bytes := ["1", "t", "T", "TRUE", "true", "True"].map utf8

/-- The ways to write that a flag is off. -/
def offWords : List Bytes := ["0", "f", "F", "FALSE", "false", "False"].map utf8

/-- Whether a flag is on, as a value says it. -/
def switch? (value : Bytes) : Option Bool :=
  if onWords.contains value then some true
  else if offWords.contains value then some false
  else none

/-- Turns a flag that takes no text on or off. -/
def turn (options : Options) (on : Bool) : Flag → Options
  | .help => { options with help := on }
  | .html => { options with html := on }
  | .org => { options with org := on }
  | .pdf => { options with pdf := on }
  | .pot => { options with pot := on }
  | .showConfig => { options with showConfig := on }
  | .verbose => { options with verbose := on }
  | .version => { options with version := on }
  | .config | .stem => options

/-- Gives a flag a value. -/
def set (options : Options) (flag : Flag) (value : Bytes) : Except FlagError Options :=
  match flag with
  | .config => .ok { options with config := value }
  | .stem => .ok { options with stem := value }
  | _ =>
    match switch? value with
    | some on => .ok (options.turn on flag)
    | none => .error (.invalid flag value)

/-! ### Arguments -/

/-- The byte that starts flags. -/
@[match_pattern] abbrev hyphen : UInt8 := 45

/-- The byte between a flag and its value. -/
@[match_pattern] abbrev equals : UInt8 := 61

/-- What reading an argument yields: the options, and whether the argument after it was taken
as a value. -/
abbrev Step := Except FlagError (Options × Bool)

/-- Reads a flag given by its name, with the argument that follows. -/
def readName (options : Options) (s : Bytes) (next? : Option Bytes) : Step :=
  let name := s.takeWhile (· ≠ equals)
  match Flag.ofName? name, s.drop name.length, next? with
  | none, _, _ => .error (.unknownName name)
  | some flag, _ :: value, _ => (options.set flag value).map (·, false)
  | some flag, [], next? =>
    if flag.takesText then
      match next? with
      | some value => (options.set flag value).map (·, true)
      | none => .error (.nameNeedsText name)
    else .ok (options.turn true flag, false)

/-- What a group of letters starts with to be left to others. -/
def reservedStem : Bytes := utf8 "test."

/-- Reads flags given by letters that are written together, with the argument that follows. -/
def readLetters (options : Options) (next? : Option Bytes) : Bytes → Step
  | [] => .ok (options, false)
  | letter :: rest =>
    if reservedStem.isPrefixOf (letter :: rest) then .ok (options, false)
    else
      match Flag.ofLetter? letter, rest, next? with
      | none, _, _ => .error (.unknownLetter letter (letter :: rest))
      | some flag, equals :: b :: value, _ => (options.set flag (b :: value)).map (·, false)
      | some flag, rest, next? =>
        if !flag.takesText then readLetters (options.turn true flag) next? rest
        else
          match rest, next? with
          | b :: value, _ => (options.set flag (b :: value)).map (·, false)
          | [], some value => (options.set flag value).map (·, true)
          | [], none => .error (.letterNeedsText letter [letter])

/-- Whether an argument is a source and no flag. -/
def isSource : Bytes → Bool
  | [] => true
  | [_] => true
  | first :: _ => first ≠ hyphen

/-- Reads a flag, with the argument that follows. -/
def readFlag (options : Options) (argument : Bytes) (next? : Option Bytes) : Step :=
  match argument with
  | hyphen :: hyphen :: name =>
    if name.isEmpty || name.head? = some hyphen || name.head? = some equals then
      .error (.badSyntax argument)
    else options.readName name next?
  | _ => options.readLetters next? (argument.drop 1)

/-- Reads arguments, one after the other. -/
def readAll (options : Options) : List Bytes → Except FlagError Options
  | [] => .ok options
  | argument :: rest =>
    if argument = [hyphen, hyphen] then .ok { options with sources := options.sources ++ rest }
    else if isSource argument then
      readAll { options with sources := options.sources ++ [argument] } rest
    else
      match rest with
      | [] => (options.readFlag argument none).map Prod.fst
      | next :: others =>
        match options.readFlag argument (some next) with
        | .error error => .error error
        | .ok (options, true) => readAll options others
        | .ok (options, false) => readAll options (next :: others)

/-- The options that arguments give. -/
def parse (arguments : List Bytes) : Except FlagError Options :=
  readAll {} arguments

/-- What the options ask a run for. -/
def request (options : Options) : Request where
  stem := options.stem
  outline := options.org
  html := options.html
  pdf := options.pdf
  catalog := options.pot
  verbose := options.verbose

end Options

end DocHarvest
