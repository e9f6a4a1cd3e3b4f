import DocHarvest.Files.Fault

/-!
# Paths

A path as it is written: the names between its slashes, whether it starts at the root, and
whether a slash at its end demands a directory.
-/

namespace DocHarvest.Files

/-- The parts of a written path. -/
structure Path where
  fromRoot : Bool
  names : List Bytes
  endsInSlash : Bool
  deriving DecidableEq, Repr

namespace Path

/-- The name for the directory itself. -/
def here : Bytes := utf8 "."

/-- The name for the directory above. -/
def above : Bytes := utf8 ".."

/-- The longest name that an entry can have, in bytes. -/
def maxName : Nat := 255

/-- Written paths are shorter than this number of bytes. -/
def maxPath : Nat := 4096

/-- The parts of a path, however long it is. -/
def split (s : Bytes) : Path where
  fromRoot := s.head? = some Byte.slash
  names := (Bytes.splitAt Byte.slash s).filter fun name => !name.isEmpty
  endsInSlash := s.getLast? = some Byte.slash

/-- The parts of a path that the file system accepts: one that is not empty, holds no zero
byte and is not too long. -/
def parse (s : Bytes) : Except Fault Path :=
  if s.contains 0 then .error .invalid
  else if s.isEmpty then .error .missing
  else if maxPath ≤ s.length then .error .nameTooLong
  else .ok (split s)

/-- The names of a path, and behind them the directory itself when a slash at the end demands
one. -/
def steps (path : Path) : List Bytes :=
  path.names ++ if path.endsInSlash then [here] else []

/-- The last name of a path as written, and the whole path when it has no slash. -/
def baseName (s : Bytes) : Bytes :=
  (s.reverse.takeWhile (· ≠ Byte.slash)).reverse

/-- A path below a directory. -/
def below (directory name : Bytes) : Bytes :=
  if directory.getLast? = some Byte.slash then directory ++ name
  else directory ++ utf8 "/" ++ name

/-- What follows the last dot in a path's last name, if there is a dot. -/
def extension? (s : Bytes) : Option Bytes :=
  match (Bytes.splitAt (UInt8.ofNat '.'.toNat) (baseName s)).reverse with
  | last :: _ :: _ => some last
  | _ => none

/-- The names from the root to where a path leads from a directory, going only by how it is
written. -/
def resolve (directory : List Bytes) (s : Bytes) : List Bytes :=
  let path := split s
  path.names.foldl
    (fun names name =>
      if name = here then names else if name = above then names.dropLast else names ++ [name])
    (if path.fromRoot then [] else directory)

/-- The path from the root along names. -/
def absolute (names : List Bytes) : Bytes :=
  utf8 "/" ++ Bytes.join (utf8 "/") names

end Path

end DocHarvest.Files
