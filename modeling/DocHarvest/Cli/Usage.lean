import DocHarvest.Cli.Flag

/-!
# Usage and Help

The texts that explain the command line. Flags are listed with their letters and names in one
column and what they are for in the next.
-/

namespace DocHarvest

/-- The name of the program. -/
def programName : String := "extradoc"

/-- The version of the program. -/
def programVersion : String := "dev"

namespace Flag

/-- What a flag is for. -/
def purpose : Flag → String
  | config => "config file (default: ./extradoc.yaml or ~/.config/extradoc/extradoc.yaml)"
  | help => "help for extradoc"
  | html => "produce an HTML file, name will be PREFIX.html"
  | org => "produce an Org file, name will be PREFIX.org"
  | pdf => "produce a PDF file, name will be PREFIX.pdf"
  | pot => "produce a translation file, name will be PREFIX.pot"
  | stem => "common prefix for all output files (required)"
  | showConfig => "print the effective configuration as YAML and exit"
  | verbose => "be verbose and repeat all of Emacs output"
  | version => "version for extradoc"

/-- The first column of a flag's line. -/
def heading (flag : Flag) : Bytes :=
  let letter :=
    match flag.letter? with
    | some c => utf8 "  -" ++ utf8Chars [c] ++ utf8 ", "
    | none => utf8 "      "
  letter ++ utf8 "--" ++ utf8 flag.name ++ (if flag.takesText then utf8 " string" else [])

/-- The width of the first column. -/
def headingWidth : Nat :=
  (all.map fun flag => flag.heading.length).foldl max 0

/-- The line that lists a flag. -/
def usageLine (flag : Flag) : Bytes :=
  flag.heading ++ List.replicate (headingWidth - flag.heading.length + 3) Byte.space ++
    utf8 flag.purpose ++ utf8 "\n"

end Flag

/-- How the program is used. -/
def usage : Bytes :=
  utf8 "Usage:\n  extradoc [flags] [SOURCE...]\n\nFlags:\n" ++ Flag.all.flatMap Flag.usageLine

/-- What the program does. -/
def description : String :=
  "extradoc extracts documentation from one or more Python sources.\n" ++
  "Documentation lies in all unprefixed, sextuple-quoted strings: string\n" ++
  "literals opened and closed by three double quotes with no r, b, u or f\n" ++
  "prefix.\n\n" ++
  "If no SOURCE is given, standard input is read and processed.\n\n" ++
  "Option -c is mandatory. If -h or -p are used and -o is not, file PREFIX.org\n" ++
  "must not pre-exist, as it is written as an intermediate and deleted at the\n" ++
  "end of the run. HTML and PDF output are produced by Emacs in batch mode;\n" ++
  "its output is filtered unless -v is given.\n"

/-- What the program does and how it is used. -/
def helpText : Bytes :=
  utf8 description ++ utf8 "\n" ++ usage

/-- The program's name and version. -/
def versionText : Bytes :=
  utf8 programName ++ utf8 " version " ++ utf8 programVersion ++ utf8 "\n"

end DocHarvest
