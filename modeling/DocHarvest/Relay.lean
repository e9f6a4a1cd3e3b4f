import DocHarvest.Bytes.Utf8
import DocHarvest.Source.Scanner
import DocHarvest.Writer

/-!
# Relaying a Formatter's Output

The formatter prints a line for almost everything it does. The relay passes on what matters:
each line is read as UTF-8, or as Latin-1 when it is not UTF-8, lines of routine are dropped,
and of a line that announces a cache file only the name of the cache is kept. A verbose relay
passes on every line.

## Main definitions

* `Relay.decodeLine` — a line as UTF-8.
* `Relay.cacheName?` — the name in a line that announces a cache file.
* `Relay.emitted?` — what is passed on for a line.
* `Relay.stream` — a whole stream, line by line.
-/

namespace DocHarvest.Relay

/-- A line as UTF-8: the line itself if it is UTF-8, and else each byte read as the
character with that code point. -/
def decodeLine (line : Bytes) : Bytes :=
  if Utf8.isValid line then line else Utf8.ofLatin1 line

/-- What lines of routine start with. -/
def routine : List Bytes :=
  ["Loading ", "OVERVIEW", "Saving file ", "Wrote ", "Exporting to ", "LaTeX export done, ",
    "Processing LaTeX file ", "(No changes need to be saved)", "(Shell command succeeded ",
    "Exporting...", "HTML export done, ", "Publishing file ", "Resetting org-publish-cache",
    "Skipping unmodified file "].map utf8

/-- Whether a line is routine. -/
def isRoutine (line : Bytes) : Bool :=
  routine.any fun start => start.isPrefixOf line

/-- A text without the line feed at its end. -/
def withoutLineFeed (line : Bytes) : Bytes :=
  (Bytes.dropEnd? [Byte.lineFeed] line).getD line

/-- What stands before and after the last slash of a text. -/
def splitLastSlash? (s : Bytes) : Option (Bytes × Bytes) :=
  if s.contains Byte.slash then
    let after := (s.reverse.takeWhile (· ≠ Byte.slash)).reverse
    some (s.take (s.length - after.length - 1), after)
  else none

/-- The name of the cache whose loading a line announces: what stands between the last slash
and the ending. The directories before that slash hold no line feed. -/
def cacheName? (line : Bytes) : Option Bytes := do
  let path ← Bytes.dropStem? (utf8 "Loading ") (withoutLineFeed line)
  let (directories, file) ← splitLastSlash? path
  let name ← Bytes.dropEnd? (utf8 ".cache...") file
  if directories.contains Byte.lineFeed || name.isEmpty then none else some name

/-- What is passed on for a line. -/
def emitted? (verbose : Bool) (line : Bytes) : Option Bytes :=
  let text := decodeLine line
  if verbose then some text
  else
    match cacheName? text with
    | some name => some (name ++ [Byte.lineFeed])
    | none => if isRoutine text then none else some text

/-- Passes on one line. -/
def line (verbose : Bool) (line : Bytes) (writer : Writer) : Except Cause Unit × Writer :=
  match emitted? verbose line with
  | none => (.ok (), writer)
  | some text => writer.write text

/-- Passes on lines up to the first that cannot be written. -/
def lines (verbose : Bool) : List Bytes → Writer → Except Cause Unit × Writer
  | [], writer => (.ok (), writer)
  | first :: others, writer =>
    match line verbose first writer with
    | (.error cause, after) => (.error cause, after)
    | (.ok (), after) => lines verbose others after

/-- Passes on a stream line by line. When all of it was written and the stream ends in a
failure, that is the error. -/
def stream (verbose : Bool) (input : Bytes) (ending : Source.Ending) (writer : Writer) :
    Except Cause Unit × Writer :=
  match lines verbose (Bytes.lines input) writer, ending with
  | (.error cause, after), _ => (.error cause, after)
  | (.ok (), after), .complete => (.ok (), after)
  | (.ok (), after), .failure cause => (.error cause, after)

end DocHarvest.Relay
