import DocHarvest.Files.Path

/-!
# The File Tree

The files a program can see, as a value: entries at locations, a location being the names on
the way from the root. A path leads to a location through directories and symbolic links, and
the operations here follow it in the three ways a file system does: inspecting and opening go
through a link at the path's end, creating goes through it even when nothing is behind it, and
removing takes the link itself.

Every file has one name here: two locations never share their content. Of the permissions of a
file only the mark of a program is kept, and everything can be read, written and searched.

## Main definitions

* `Tree.find?`, `Tree.set`, `Tree.erase` — the entry at a location.
* `Tree.follow` — the place that a path leads to.
* `Tree.inspect`, `Tree.openToRead`, `Tree.create`, `Tree.append`, `Tree.remove` — what a
  program does with a path.
-/

namespace DocHarvest.Files

/-- The names on the way from the root. -/
abbrev Location := List Bytes

/-- What can be found at a location. -/
inductive Entry
  | directory
  | file (content : Bytes) (executable : Bool)
  | link (target : Bytes)
  /-- A device that takes everything and holds nothing. -/
  | discard
  /-- A device that has no space. -/
  | full
  deriving DecidableEq, Repr

/-- The entries below the root, and the directory that paths start from. -/
structure Tree where
  entries : List (Location × Entry)
  workingDirectory : Location := []
  deriving DecidableEq, Repr

/-- The place a path leads to: a location, and what is there. -/
structure Place where
  location : Location
  found? : Option Entry
  deriving DecidableEq, Repr

/-- How many symbolic links a path may lead through. -/
def maxLinks : Nat := 40

namespace Tree

/-! ### Entries by location -/

/-- The entry at a location; the root is always a directory. -/
def find? (tree : Tree) (location : Location) : Option Entry :=
  if location.isEmpty then some .directory else tree.entries.lookup location

/-- Puts an entry into a list of entries, in the place of the one it had. -/
def put (location : Location) (entry : Entry) :
    List (Location × Entry) → List (Location × Entry)
  | [] => [(location, entry)]
  | (l, e) :: others =>
    if l = location then (location, entry) :: others else (l, e) :: put location entry others

/-- The tree with an entry at a location. -/
def set (tree : Tree) (location : Location) (entry : Entry) : Tree :=
  { tree with entries := put location entry tree.entries }

/-- The tree without the entry at a location. -/
def erase (tree : Tree) (location : Location) : Tree :=
  { tree with entries := tree.entries.filter fun (l, _) => l ≠ location }

/-- Whether a directory holds nothing. -/
def isBare (tree : Tree) (location : Location) : Bool :=
  !tree.entries.any fun (l, _) => !l.isEmpty && l.dropLast = location

/-! ### Where paths lead -/

/-- Walks from a directory along names. Links are handed to `onLink` together with the names
after them, except one at the very end when `through` is false. -/
def walk (tree : Tree) (through : Bool)
    (onLink : Location → Bytes → List Bytes → Except Fault Place) :
    Location → List Bytes → Except Fault Place
  | location, [] => .ok ⟨location, tree.find? location⟩
  | location, name :: rest =>
    if tree.find? location ≠ some .directory then .error .notDirectory
    else if name = Path.here then walk tree through onLink location rest
    else if name = Path.above then walk tree through onLink location.dropLast rest
    else if Path.maxName < name.length then .error .nameTooLong
    else
      match tree.find? (location ++ [name]) with
      | none => if rest.isEmpty then .ok ⟨location ++ [name], none⟩ else .error .missing
      | some (.link target) =>
        if rest.isEmpty && !through then .ok ⟨location ++ [name], some (.link target)⟩
        else onLink location target rest
      | some _ => walk tree through onLink (location ++ [name]) rest

/-- Walks from a directory along names, through at most the given number of links. A slash at the
end of a link's target demands a directory there. -/
def walkLinks (tree : Tree) (through : Bool) : Nat → Location → List Bytes → Except Fault Place
  | 0 => tree.walk through fun _ _ _ => .error .tooManyLinks
  | links + 1 => tree.walk through fun location target rest =>
      let path := Path.split target
      tree.walkLinks through links (if path.fromRoot then [] else location) (path.steps ++ rest)

/-- The place that a path leads to. A slash at its end demands a directory there. -/
def follow (tree : Tree) (through : Bool) (path : Path) : Except Fault Place :=
  let start := if path.fromRoot then [] else tree.workingDirectory
  match tree.walkLinks (through || path.endsInSlash) maxLinks start path.names with
  | .error fault => .error fault
  | .ok place =>
    if path.endsInSlash && place.found?.isSome && place.found? ≠ some .directory then
      .error .notDirectory
    else .ok place

/-! ### Operations on paths -/

/-- The place of an entry that exists at a path. -/
def locate (tree : Tree) (path : Bytes) : Except Fault (Location × Entry) := do
  let place ← tree.follow true (← Path.parse path)
  match place.found? with
  | some entry => .ok (place.location, entry)
  | none => .error .missing

/-- The entry that exists at a path. -/
def inspect (tree : Tree) (path : Bytes) : Except Fault Entry :=
  (tree.locate path).map Prod.snd

/-- Why no file can be made at names with a slash behind them: it would be a directory, if the
names before the last lead to one. -/
def slashFault (tree : Tree) (links : Nat) (location : Location) (names : List Bytes) : Fault :=
  match tree.walkLinks true links location (names.dropLast ++ [Path.here]) with
  | .error fault => fault
  | .ok _ => .isDirectory

/-- Walks to the place of a file that is to be written. A slash at the end of the target of a last
link spoils it, whatever the target leads to. -/
def walkToWrite (tree : Tree) : Nat → Location → List Bytes → Except Fault Place
  | 0 => tree.walk true fun _ _ _ => .error .tooManyLinks
  | links + 1 => tree.walk true fun location target rest =>
      let path := Path.split target
      let start := if path.fromRoot then [] else location
      if rest.isEmpty && path.endsInSlash then .error (tree.slashFault links start path.names)
      else tree.walkToWrite links start (path.steps ++ rest)

/-- The place that a file written at the path would have. -/
def target (tree : Tree) (path : Path) : Except Fault Place :=
  let start := if path.fromRoot then [] else tree.workingDirectory
  if path.endsInSlash then .error (tree.slashFault maxLinks start path.names)
  else tree.walkToWrite maxLinks start path.names

/-- Opens a file for writing: creates it, or empties it if it is there. -/
def create (tree : Tree) (path : Bytes) : Except Fault (Location × Tree) := do
  let place ← tree.target (← Path.parse path)
  match place.found? with
  | some .directory => .error .isDirectory
  | some (.file _ executable) =>
    .ok (place.location, tree.set place.location (.file [] executable))
  | some _ => .ok (place.location, tree)
  | none => .ok (place.location, tree.set place.location (.file [] false))

/-- Writes at the end of an open file. -/
def append (tree : Tree) (location : Location) (text : Bytes) : Except Fault Tree :=
  match tree.find? location with
  | some (.file content executable) =>
    .ok (tree.set location (.file (content ++ text) executable))
  | some .full => .error .noSpace
  | _ => .ok tree

/-- Removes the entry at a path: a link itself, a file, or an empty directory. -/
def remove (tree : Tree) (path : Bytes) : Except Fault Tree := do
  let place ← tree.follow false (← Path.parse path)
  match place.found? with
  | none => .error .missing
  | some .directory =>
    if place.location.isEmpty then .error .busy
    else if tree.isBare place.location then .ok (tree.erase place.location)
    else .error .notEmpty
  | some _ => .ok (tree.erase place.location)

/-- Makes a directory and the directories above it. -/
def makeDirectory (tree : Tree) (location : Location) : Tree :=
  (List.range location.length).foldl
    (fun tree n =>
      let above := location.take (n + 1)
      match tree.find? above with
      | none => tree.set above .directory
      | some _ => tree)
    tree

/-- Puts an entry at a location, with the directories above it. -/
def plant (tree : Tree) (location : Location) (entry : Entry) : Tree :=
  (tree.makeDirectory location.dropLast).set location entry

/-- A tree that holds the standard devices and nothing else. -/
def bare : Tree :=
  (({ entries := [] } : Tree).plant [utf8 "dev", utf8 "null"] .discard).plant
    [utf8 "dev", utf8 "full"] .full

/-! ### Whole files -/

/-- Writes a whole file at a path. When the file can be opened but not written, what opening
did to it stays done. -/
def save (tree : Tree) (path text : Bytes) : Except (Operation × Fault) Unit × Tree :=
  match tree.create path with
  | .error fault => (.error (.opening, fault), tree)
  | .ok (location, opened) =>
    match opened.append location text with
    | .error fault => (.error (.writing, fault), opened)
    | .ok written => (.ok (), written)

/-- Reads a whole file at a path. -/
def contents (tree : Tree) (path : Bytes) : Except (Operation × Fault) Bytes :=
  match tree.inspect path with
  | .error fault => .error (.opening, fault)
  | .ok (.file content _) => .ok content
  | .ok .directory => .error (.reading, .isDirectory)
  | .ok _ => .ok []

end Tree

end DocHarvest.Files
