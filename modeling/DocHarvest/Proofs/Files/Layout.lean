import DocHarvest.Proofs.Files.Growth

/-!
# The Layout of a Tree

Where a path leads is decided by directories and links, and what writing does at the end of the
path by the device there, or by the permissions of the file. All this is the layout of a tree.
What is left are the plain files, with their contents: whether a plain file is there or not makes
no difference to where paths lead and to what can be written.

A path is followed through a few locations only, and what stands elsewhere does not matter to it.
So two programs that do the same thing in trees of one layout at the places which their paths pass
have the same effect, at every location: the trees agree there afterwards, or nothing was done in
either.

## Main definitions

* `Tree.layout`, `Tree.SameLayout` — the layout of a tree, and trees that have one layout at some
  places.
* `Tree.WrittenAt` — nothing was done but to write files at some places.
* `Tree.passed` — the locations that a path is followed through.
* `Tree.SameEffect` — two changes have the same effect.

## Main results

* `Tree.SameLayout.leads_eq` — in trees of one layout a path leads to one location.
* `Tree.SameEffect.layout` — changes of the same effect keep one layout.
* `Tree.create_again`, `Tree.save_again`, `Tree.SameLayout.save` — what can be written in one tree
  can be written in the other, with the same effect.
* `Tree.leads_unlinked`, `Tree.leads_erased` — where paths lead when a link is gone.
-/

namespace DocHarvest.Files

/-- What an entry adds to the layout of its tree. A plain file adds nothing, and an executable
file only that it is one. -/
def Entry.fixture? : Entry → Option Entry
  | file _ false => none
  | file _ true => some (file [] true)
  | entry => some entry

/-- What is at a location after a file was written there, if that can be: a file keeps its
permissions, and where there was nothing there is a plain file. -/
def Entry.rewritten (text : Bytes) : Option Entry → Option Entry
  | none => some (file text false)
  | some (file _ executable) => some (file text executable)
  | some entry => some entry

/-- What is written to places of one layout is the same there. -/
theorem Entry.rewritten_eq {found found' : Option Entry}
    (h : found'.bind Entry.fixture? = found.bind Entry.fixture?) (text : Bytes) :
    Entry.rewritten text found' = Entry.rewritten text found := by
  rcases found with _ | (_ | ⟨_, _ | _⟩ | _ | _ | _) <;>
    rcases found' with _ | (_ | ⟨_, _ | _⟩ | _ | _ | _) <;>
    simp_all [Entry.fixture?, Entry.rewritten]

/-- Writing a file adds nothing to the layout. -/
theorem Entry.fixture?_rewritten (text : Bytes) (found : Option Entry) :
    (Entry.rewritten text found).bind Entry.fixture? = found.bind Entry.fixture? := by
  rcases found with _ | (_ | ⟨_, _ | _⟩ | _ | _ | _) <;> rfl

/-- Anything but a file is seen in the layout. -/
theorem Entry.eq_of_fixture? {found found' : Option Entry} {entry : Entry}
    (h : found'.bind Entry.fixture? = found.bind Entry.fixture?) (hfound : found = some entry)
    (hentry : ∀ content executable, entry ≠ .file content executable) : found' = some entry := by
  subst hfound
  rcases entry with _ | ⟨_, _⟩ | _ | _ | _ <;>
    rcases found' with _ | (_ | ⟨_, _ | _⟩ | _ | _ | _) <;>
    simp_all [Entry.fixture?]

/-- Of two files in one layout, both are executable or none is. -/
theorem Entry.executable_eq {content content' : Bytes} {executable executable' : Bool}
    (h : (some (Entry.file content' executable')).bind Entry.fixture? =
      (some (Entry.file content executable)).bind Entry.fixture?) : executable' = executable := by
  cases executable <;> cases executable' <;> simp [Entry.fixture?] at h ⊢

namespace Tree

/-- What stands at a location, plain files apart. -/
def layout (tree : Tree) (location : Location) : Option Entry :=
  (tree.find? location).bind Entry.fixture?

/-- **Two trees have one layout at some places**: there they differ in plain files and in contents
of files alone. -/
structure SameLayout (places : List Location) (tree tree' : Tree) : Prop where
  workingDirectory : tree'.workingDirectory = tree.workingDirectory
  layout : ∀ location ∈ places, tree'.layout location = tree.layout location

instance (places : List Location) (tree tree' : Tree) : Decidable (SameLayout places tree tree') :=
  decidable_of_iff (tree'.workingDirectory = tree.workingDirectory ∧
    ∀ location ∈ places, tree'.layout location = tree.layout location)
    ⟨fun h => ⟨h.1, h.2⟩, fun h => ⟨h.1, h.2⟩⟩

section SameLayout

variable {places : List Location} {tree tree' tree'' : Tree}

/-- The order of the trees does not matter. -/
theorem SameLayout.symm (h : SameLayout places tree tree') : SameLayout places tree' tree :=
  ⟨h.workingDirectory.symm, fun location hlocation => (h.layout location hlocation).symm⟩

/-- Trees of one layout have it at fewer places. -/
theorem SameLayout.mono {fewer : List Location} (h : SameLayout places tree tree')
    (hsub : fewer ⊆ places) : SameLayout fewer tree tree' :=
  ⟨h.workingDirectory, fun location hlocation => h.layout location (hsub hlocation)⟩

/-- Layouts that stay the same twice are the same in the end. -/
theorem SameLayout.trans (h : SameLayout places tree tree')
    (h' : SameLayout places tree' tree'') : SameLayout places tree tree'' :=
  ⟨h'.workingDirectory.trans h.workingDirectory, fun location hlocation =>
    (h'.layout location hlocation).trans (h.layout location hlocation)⟩

end SameLayout

/-- The ways through a tree are part of its layout. -/
theorem way?_eq_filter (tree : Tree) (location : Location) :
    tree.way? location = (tree.layout location).filter Entry.isWay := by
  rw [way?, layout]
  rcases tree.find? location with _ | (_ | ⟨_, _ | _⟩ | _ | _ | _) <;> rfl

/-- **Nothing was done but to write files at some places**: the layout is as it was, and so is
everything elsewhere. -/
structure WrittenAt (places : List Location) (tree tree' : Tree) : Prop where
  workingDirectory : tree'.workingDirectory = tree.workingDirectory
  layout : ∀ location, tree'.layout location = tree.layout location
  find? : ∀ location, location ∉ places → tree'.find? location = tree.find? location

namespace WrittenAt

variable {places others : List Location} {tree tree' tree'' : Tree}

/-- Nothing needs to be written. -/
theorem refl (places : List Location) (tree : Tree) : WrittenAt places tree tree :=
  ⟨rfl, fun _ => rfl, fun _ _ => rfl⟩

/-- Places that are written to one after another. -/
theorem trans (h : WrittenAt places tree tree') (h' : WrittenAt others tree' tree'') :
    WrittenAt (places ++ others) tree tree'' := by
  refine ⟨h'.workingDirectory.trans h.workingDirectory,
    fun location => (h'.layout location).trans (h.layout location), fun location hnot => ?_⟩
  rw [List.mem_append, not_or] at hnot
  rw [h'.find? location hnot.2, h.find? location hnot.1]

/-- The same places, written to once more. -/
theorem trans_self (h : WrittenAt places tree tree') (h' : WrittenAt places tree' tree'') :
    WrittenAt places tree tree'' :=
  ⟨h'.workingDirectory.trans h.workingDirectory,
    fun location => (h'.layout location).trans (h.layout location),
    fun location hnot => (h'.find? location hnot).trans (h.find? location hnot)⟩

/-- Nothing but what stands at the places has changed. -/
theorem sameBut (h : WrittenAt places tree tree') : SameBut places tree tree' :=
  ⟨h.workingDirectory, funext fun location => by
    rw [way?_eq_filter, way?_eq_filter, h.layout location], h.find?⟩

/-- Writing files keeps the layout. -/
theorem sameLayout (h : WrittenAt places tree tree') (others : List Location) :
    SameLayout others tree tree' :=
  ⟨h.workingDirectory, fun location _ => h.layout location⟩

end WrittenAt

/-- The locations that following a path looks at, up to the one that it leads to. -/
def passed (tree : Tree) (path : Bytes) : List Location :=
  match Path.parse path with
  | .error _ => []
  | .ok parsed => Files.passed tree.way? maxLinks (tree.start parsed) parsed.names

/-- Where a path leads is among the locations that following it looks at. -/
theorem mem_passed_of_leads {tree : Tree} {through : Bool} {path : Bytes} {location : Location}
    (h : tree.leads through path = some location) : location ∈ tree.passed path := by
  obtain ⟨parsed, hparse, hfollow⟩ := leads_eq_some_iff.mp h
  simp only [passed, hparse]
  exact (follow_eq_ok_iff.mp hfollow).1.mem_passed

/-- **Two changes have the same effect**: at each location both trees have the same afterwards, or
both have what they had. -/
structure SameEffect (before before' after after' : Tree) : Prop where
  workingDirectory : after'.workingDirectory = after.workingDirectory
  find? : ∀ location, after'.find? location = after.find? location ∨
    after.find? location = before.find? location ∧ after'.find? location = before'.find? location

namespace SameEffect

variable {before before' after after' later later' : Tree}

/-- To do nothing has the same effect everywhere. -/
theorem refl (h : before'.workingDirectory = before.workingDirectory) :
    SameEffect before before' before before' :=
  ⟨h, fun _ => .inr ⟨rfl, rfl⟩⟩

/-- Changes of the same effect, one after another. -/
theorem trans (h : SameEffect before before' after after')
    (h' : SameEffect after after' later later') : SameEffect before before' later later' := by
  refine ⟨h'.workingDirectory, fun location => ?_⟩
  rcases h'.find? location with hsame | ⟨hlater, hlater'⟩
  · exact .inl hsame
  · rw [hlater, hlater']
    exact h.find? location

/-- **Changes of the same effect keep one layout.** -/
theorem layout {places : List Location} (h : SameEffect before before' after after')
    (hlayout : SameLayout places before before') : SameLayout places after after' := by
  refine ⟨h.workingDirectory, fun location hlocation => ?_⟩
  rcases h.find? location with hsame | ⟨hafter, hafter'⟩
  · rw [Tree.layout, Tree.layout, hsame]
  · rw [Tree.layout, Tree.layout, hafter, hafter']
    exact hlayout.layout location hlocation

/-- What was the same before is the same afterwards. -/
theorem find?_eq (h : SameEffect before before' after after') {location : Location}
    (hsame : before'.find? location = before.find? location) :
    after'.find? location = after.find? location := by
  rcases h.find? location with heq | ⟨hafter, hafter'⟩
  · exact heq
  · rw [hafter, hafter', hsame]

/-- Changes at one location alone, with the same outcome there. -/
theorem of_eq_at {location : Location}
    (hdirectory : after'.workingDirectory = after.workingDirectory)
    (hat : after'.find? location = after.find? location)
    (hafter : ∀ other, other ≠ location → after.find? other = before.find? other)
    (hafter' : ∀ other, other ≠ location → after'.find? other = before'.find? other) :
    SameEffect before before' after after' := by
  refine ⟨hdirectory, fun other => ?_⟩
  by_cases hother : other = location
  · exact .inl (hother ▸ hat)
  · exact .inr ⟨hafter other hother, hafter' other hother⟩

end SameEffect

/-! ### Opening and saving -/

section Writing

variable {tree tree' : Tree} {path : Bytes} {location : Location}

/-- Opening a file for writing, said through what stands where the path leads. -/
theorem create_eq (hfile : Path.NamesFile path) (hleads : tree.leads true path = some location)
    (hdirectory : tree.find? location ≠ some .directory) :
    tree.create path = match tree.find? location with
      | some (.file _ executable) => .ok (location, tree.set location (.file [] executable))
      | some _ => .ok (location, tree)
      | none => .ok (location, tree.set location (.file [] false)) := by
  obtain ⟨parsed, hparse, hfollow⟩ := leads_eq_some_iff.mp hleads
  have htarget := target_of_follow (hfile.endsInSlash hparse) hfollow hdirectory
  rcases hfind : tree.find? location with _ | (_ | _ | _ | _ | _)
  case directory => exact absurd hfind hdirectory
  all_goals simp only [create, hparse, htarget, hfind, bind, Except.bind]

/-- Opening a file for writing empties what stands where the path leads, and changes nothing
else. -/
theorem find?_create {opened : Tree} (hfile : Path.NamesFile path)
    (h : tree.create path = .ok (location, opened)) :
    opened.find? location = Entry.rewritten [] (tree.find? location) ∧
      ∀ other, other ≠ location → opened.find? other = tree.find? other := by
  obtain ⟨hleads, hdirectory, -⟩ := create_cases h
  have hroot : location ≠ [] := ne_nil_of_find? hdirectory
  rw [create_eq hfile hleads hdirectory] at h
  rcases hfind : tree.find? location with _ | (_ | ⟨_, executable⟩ | _ | _ | _) <;>
    simp only [hfind, Except.ok.injEq, Prod.mk.injEq, true_and] at h <;>
    subst h
  case none | file =>
    exact ⟨tree.find?_set_self hroot _, fun other hne => tree.find?_set_ne hne _⟩
  all_goals exact ⟨hfind, fun _ _ => rfl⟩

/-- A file was written, and nothing else was done. -/
theorem writtenAt_of_rewritten {text : Bytes}
    (hdirectory : tree'.workingDirectory = tree.workingDirectory)
    (hat : tree'.find? location = Entry.rewritten text (tree.find? location))
    (helse : ∀ other, other ≠ location → tree'.find? other = tree.find? other) :
    WrittenAt [location] tree tree' := by
  refine ⟨hdirectory, fun other => ?_, fun other hnot => helse other (by simpa using hnot)⟩
  by_cases hother : other = location
  · rw [hother, layout, layout, hat, Entry.fixture?_rewritten]
  · rw [layout, layout, helse other hother]

/-- Opening a file for writing does nothing else. -/
theorem create_writtenAt {opened : Tree} (hfile : Path.NamesFile path)
    (h : tree.create path = .ok (location, opened)) : WrittenAt [location] tree opened := by
  obtain ⟨hat, helse⟩ := find?_create hfile h
  exact writtenAt_of_rewritten (create_sameBut h).workingDirectory hat helse

/-- Writing at the end of a file does nothing else. -/
theorem writtenAt_written (tree : Tree) (location : Location) (text : Bytes) :
    WrittenAt [location] tree (tree.written location text) := by
  rcases tree.file_or_other location with ⟨content, executable, hfound⟩ | hother
  · have hat : (tree.written location text).find? location =
        Entry.rewritten (content ++ text) (tree.find? location) := by
      rw [find?_written_file hfound, hfound]
      rfl
    exact writtenAt_of_rewritten (tree.sameBut_written location text).workingDirectory hat
      fun other hne => find?_written_ne hne text
  · rw [written_other hother]
    exact .refl [location] tree

/-- Writing at the end of a file leaves the same file in two trees that had the same one. -/
theorem find?_written_eq {location' : Location}
    (hsame : tree'.find? location' = tree.find? location) (text : Bytes) :
    (tree'.written location' text).find? location' =
      (tree.written location text).find? location := by
  rcases tree.file_or_other location with ⟨content, executable, hfound⟩ | hother
  · rw [find?_written_file hfound, find?_written_file (hsame.trans hfound)]
  · rw [written_other hother, written_other (hsame ▸ hother), hsame]

/-- Saving a file does not change the directory that paths start from. -/
theorem workingDirectory_save (tree : Tree) (path text : Bytes) :
    (tree.save path text).2.workingDirectory = tree.workingDirectory := by
  rcases tree.save_sameBut path text with hsame | ⟨location, -, hsame⟩
  · rw [hsame]
  · exact hsame.workingDirectory

/-- Saving a file succeeds unless a directory is in its place or there is no space. Whether or
not it succeeds, it has written what could be written, and has changed nothing else. -/
theorem find?_save (hfile : Path.NamesFile path) (hleads : tree.leads true path = some location)
    (text : Bytes) :
    ((tree.save path text).1 = .ok () ↔
        tree.find? location ≠ some .directory ∧ tree.find? location ≠ some .full) ∧
      (tree.save path text).2.find? location = Entry.rewritten text (tree.find? location) ∧
      ∀ other, other ≠ location → (tree.save path text).2.find? other = tree.find? other := by
  unfold save
  by_cases hdirectory : tree.find? location = some .directory
  · obtain ⟨fault, hcreate⟩ := create_directory hleads hdirectory
    simp [hcreate, hdirectory, Entry.rewritten]
  rw [create_eq hfile hleads hdirectory]
  have hroot : location ≠ [] := ne_nil_of_find? hdirectory
  rcases hfind : tree.find? location with _ | (_ | ⟨content, executable⟩ | target | _ | _)
  case none | file =>
    simp only [append_file (tree.find?_set_self hroot _), set_set, List.nil_append]
    exact ⟨by simp, tree.find?_set_self hroot _, fun other hne => tree.find?_set_ne hne _⟩
  case directory => exact absurd hfind hdirectory
  all_goals simp [append, hfind, Entry.rewritten]

/-- A path that leads nowhere cannot be written at. -/
theorem save_of_leads_none (hleads : tree.leads true path = none) (text : Bytes) :
    (tree.save path text).1 ≠ .ok () ∧ (tree.save path text).2 = tree := by
  unfold save
  cases hcreate : tree.create path with
  | error fault => simp
  | ok opened => simp [(create_cases hcreate).1] at hleads

/-- Nothing is written at a path that ends in a slash. -/
theorem save_of_slash (hslash : ¬ Path.NamesFile path) (text : Bytes) :
    (tree.save path text).1 ≠ .ok () ∧ (tree.save path text).2 = tree := by
  have hcreate : ∃ fault, tree.create path = .error fault := by
    cases hparse : Path.parse path with
    | error fault => exact ⟨fault, by simp [Tree.create, hparse, bind, Except.bind]⟩
    | ok parsed =>
      have hends : parsed.endsInSlash = true := by
        rw [Path.parse_eq_ok hparse]
        exact decide_eq_true (Classical.not_not.mp hslash)
      refine ⟨tree.slashFault maxLinks (tree.start parsed) parsed.names, ?_⟩
      simp [Tree.create, hparse, target, hends, start, bind, Except.bind]
  obtain ⟨fault, hcreate⟩ := hcreate
  simp [save, hcreate]

/-- A file that was saved has a path that can name a file and leads somewhere. -/
theorem leads_of_save {text : Bytes} (h : (tree.save path text).1 = .ok ()) :
    Path.NamesFile path ∧ ∃ location, tree.leads true path = some location := by
  refine ⟨Classical.byContradiction fun hslash => (save_of_slash hslash text).1 h, ?_⟩
  cases hleads : tree.leads true path with
  | none => exact absurd h (save_of_leads_none hleads text).1
  | some location => exact ⟨location, rfl⟩

/-- Saving a file does nothing else. -/
theorem save_writtenAt {text : Bytes} (h : (tree.save path text).1 = .ok ())
    (hleads : tree.leads true path = some location) :
    WrittenAt [location] tree (tree.save path text).2 := by
  obtain ⟨hfile, -⟩ := leads_of_save h
  obtain ⟨-, hat, helse⟩ := find?_save hfile hleads text
  exact writtenAt_of_rewritten (tree.workingDirectory_save path text) hat helse

/-- **A file that was opened for writing can be opened again**, where the path leads to a place of
the same layout, and is the same file then. -/
theorem create_again {opened : Tree} {location' : Location} (hfile : Path.NamesFile path)
    (hcreate : tree.create path = .ok (location, opened))
    (hleads' : tree'.leads true path = some location')
    (hlayout : tree'.layout location' = tree.layout location) :
    ∃ opened', tree'.create path = .ok (location', opened') ∧
      opened'.find? location' = opened.find? location := by
  obtain ⟨-, hdirectory, -⟩ := create_cases hcreate
  have hdirectory' : tree'.find? location' ≠ some .directory := fun hfound =>
    hdirectory (Entry.eq_of_fixture? hlayout.symm hfound (by simp))
  have hcreate' : ∃ opened', tree'.create path = .ok (location', opened') := by
    rw [create_eq hfile hleads' hdirectory']
    rcases tree'.find? location' with _ | (_ | _ | _ | _ | _) <;> exact ⟨_, rfl⟩
  obtain ⟨opened', hcreate'⟩ := hcreate'
  refine ⟨opened', hcreate', ?_⟩
  rw [(find?_create hfile hcreate).1, (find?_create hfile hcreate').1, Entry.rewritten_eq hlayout]

/-- **A file that was saved can be saved again**, where the path leads to a place of the same
layout, and is the same file then. -/
theorem save_again {text : Bytes} {location' : Location} (hok : (tree.save path text).1 = .ok ())
    (hleads : tree.leads true path = some location)
    (hleads' : tree'.leads true path = some location')
    (hlayout : tree'.layout location' = tree.layout location) :
    (tree'.save path text).1 = .ok () ∧
      (tree'.save path text).2.find? location' = (tree.save path text).2.find? location := by
  obtain ⟨hfile, -⟩ := leads_of_save hok
  obtain ⟨hiff, hat, -⟩ := find?_save hfile hleads text
  obtain ⟨hiff', hat', -⟩ := find?_save hfile hleads' text
  refine ⟨hiff'.mpr ?_, ?_⟩
  · obtain ⟨hnotDirectory, hnotFull⟩ := hiff.mp hok
    exact ⟨fun hfound => hnotDirectory (Entry.eq_of_fixture? hlayout.symm hfound (by simp)),
      fun hfound => hnotFull (Entry.eq_of_fixture? hlayout.symm hfound (by simp))⟩
  · rw [hat, hat', Entry.rewritten_eq hlayout]

/-- What stands where a path leads, and is no directory, can be removed. -/
theorem remove_of_look {entry : Entry} (hlook : tree.look false path = some (location, entry))
    (hentry : entry ≠ .directory) : tree.remove path = .ok (tree.erase location) := by
  obtain ⟨hleads, hfind⟩ := look_eq_some_iff.mp hlook
  obtain ⟨parsed, hparse, hfollow⟩ := leads_eq_some_iff.mp hleads
  simp only [Tree.remove, hparse, hfollow, hfind, bind, Except.bind]

/-- A path that leads to nothing finds nothing to inspect. -/
theorem inspect_of_missing (hleads : tree.leads true path = some location)
    (hfind : tree.find? location = none) : tree.inspect path = .error .missing := by
  obtain ⟨parsed, hparse, hfollow⟩ := leads_eq_some_iff.mp hleads
  simp [inspect, locate, hparse, hfollow, hfind, bind, Except.bind, Except.map]

/-- Nothing stands where a path leads that finds nothing to inspect. -/
theorem find?_of_missing (hleads : tree.leads true path = some location)
    (h : tree.inspect path = .error .missing) : tree.find? location = none := by
  cases hfound : tree.find? location with
  | none => rfl
  | some entry =>
    rw [inspect_eq_ok (look_eq_some_iff.mpr ⟨hleads, hfound⟩)] at h
    cases h

end Writing

namespace SameLayout

variable {places : List Location} {tree tree' : Tree} {path : Bytes} {location : Location}
  (h : SameLayout places tree tree')
include h

/-- At the places of one layout there are the same ways. -/
theorem way?_eq (hlocation : location ∈ places) : tree'.way? location = tree.way? location := by
  rw [way?_eq_filter, way?_eq_filter, h.layout location hlocation]

/-- Paths start from the same location. -/
theorem start_eq (parsed : Path) : tree'.start parsed = tree.start parsed := by
  rw [start, start, h.workingDirectory]

variable (hpath : tree.passed path ⊆ places)
include hpath

/-- The ways that following a path looks at are the same. -/
theorem ways_eq {parsed : Path} (hparse : Path.parse path = .ok parsed) :
    ∀ l ∈ Files.passed tree.way? maxLinks (tree.start parsed) parsed.names,
      tree'.way? l = tree.way? l := by
  simp only [passed, hparse] at hpath
  exact fun l hl => h.way?_eq (hpath hl)

/-- Following a path looks at the same locations. -/
theorem passed_eq : tree'.passed path = tree.passed path := by
  unfold passed
  cases hparse : Path.parse path with
  | error fault => rfl
  | ok parsed =>
    simp only [h.start_eq]
    exact passed_congr (h.ways_eq hpath hparse)

/-- **A path leads to one location** in trees of one layout at the places it is followed
through. -/
theorem leads_eq (hfile : Path.NamesFile path) (through : Bool) :
    tree'.leads through path = tree.leads through path := by
  refine Option.ext fun location => ?_
  rw [leads_file_iff hfile, leads_file_iff hfile]
  refine exists_congr fun parsed => and_congr_right fun hparse => ?_
  rw [h.start_eq]
  exact walks_congr (h.ways_eq hpath hparse)

/-- Saving a file has the same effect. -/
theorem save {text : Bytes} (hok : (tree.save path text).1 = .ok ()) :
    (tree'.save path text).1 = .ok () ∧
      SameEffect tree tree' (tree.save path text).2 (tree'.save path text).2 := by
  obtain ⟨hfile, location, hleads⟩ := leads_of_save hok
  have hleads' : tree'.leads true path = some location :=
    (h.leads_eq hpath hfile true).trans hleads
  obtain ⟨hok', hat⟩ := save_again hok hleads hleads'
    (h.layout location (hpath (mem_passed_of_leads hleads)))
  obtain ⟨-, -, helse⟩ := find?_save hfile hleads text
  obtain ⟨-, -, helse'⟩ := find?_save hfile hleads' text
  refine ⟨hok', SameEffect.of_eq_at ?_ hat helse helse'⟩
  rw [workingDirectory_save, workingDirectory_save, h.workingDirectory]

/-- A path opens what stands at the same location. -/
theorem locate {entry : Entry} (hlocate : tree.locate path = .ok (location, entry))
    (hfind' : tree'.find? location = some entry) : tree'.locate path = .ok (location, entry) := by
  rw [locate_eq_ok_iff, look_eq_some_iff, leads_eq_some_iff] at hlocate ⊢
  obtain ⟨⟨parsed, hparse, hfollow⟩, hfind⟩ := hlocate
  refine ⟨⟨parsed, hparse, ?_⟩, hfind'⟩
  rw [follow_eq_ok_iff, h.start_eq, walks_congr (h.ways_eq hpath hparse), hfind', ← hfind]
  exact follow_eq_ok_iff.mp hfollow

/-- A file whose content is the same in both trees is the same file. -/
theorem find?_of_contents {entry : Entry} (hlocate : tree.locate path = .ok (location, entry))
    (hcontents : tree'.contents path = tree.contents path) :
    tree'.find? location = some entry := by
  obtain ⟨hleads, hfind⟩ := look_eq_some_iff.mp (locate_eq_ok_iff.mp hlocate)
  have hlayout := h.layout location (hpath (mem_passed_of_leads hleads))
  cases entry with
  | directory | link | discard | full => exact Entry.eq_of_fixture? hlayout hfind (by simp)
  | file content executable =>
    have hfile := namesFile_of_locate hlocate (by simp)
    have hleads' : tree'.leads true path = some location :=
      (h.leads_eq hpath hfile true).trans hleads
    rw [Tree.layout, Tree.layout, hfind] at hlayout
    rw [contents_eq_ok (locate_eq_ok_iff.mp hlocate)] at hcontents
    unfold contents at hcontents
    cases hfind' : tree'.find? location with
    | none => simp [inspect_of_missing hleads' hfind'] at hcontents
    | some entry' =>
      rw [inspect_eq_ok (look_eq_some_iff.mpr ⟨hleads', hfind'⟩)] at hcontents
      rw [hfind'] at hlayout
      cases entry' with
      | file content' executable' =>
        rw [Entry.executable_eq hlayout, Except.ok.inj hcontents]
      | directory | link | discard | full =>
        cases executable <;> simp [Entry.fixture?] at hlayout

end SameLayout

/-- A path is read alike where it opens the same. -/
theorem contents_eq_of_locate {tree tree' : Tree} {path : Bytes} {location location' : Location}
    {entry : Entry} (h : tree.locate path = .ok (location, entry))
    (h' : tree'.locate path = .ok (location', entry)) :
    tree'.contents path = tree.contents path := by
  unfold contents
  rw [inspect_eq_ok (locate_eq_ok_iff.mp h), inspect_eq_ok (locate_eq_ok_iff.mp h')]

/-- A path is read alike where it leads to the same. -/
theorem contents_eq {tree tree' : Tree} {path : Bytes} {location location' : Location}
    (hleads : tree.leads true path = some location)
    (hleads' : tree'.leads true path = some location')
    (hsame : tree'.find? location' = tree.find? location) :
    tree'.contents path = tree.contents path := by
  unfold contents
  cases hfind : tree.find? location with
  | none =>
    rw [inspect_of_missing hleads hfind, inspect_of_missing hleads' (hsame.trans hfind)]
  | some entry =>
    rw [inspect_eq_ok (look_eq_some_iff.mpr ⟨hleads, hfind⟩),
      inspect_eq_ok (look_eq_some_iff.mpr ⟨hleads', hsame.trans hfind⟩)]

/-! ### A tree without one of its links -/

section Unlinked

variable {tree : Tree} {path : Bytes} {gone behind : Location} {target : Bytes}

/-- Without an entry, following a path looks at nothing else. -/
theorem passed_erase (hroot : gone ≠ []) (path : Bytes) :
    (tree.erase gone).passed path ⊆ tree.passed path := by
  unfold passed
  cases Path.parse path with
  | error fault => exact List.Subset.refl _
  | ok parsed =>
    exact passed_erased (fun l hne => tree.way?_erase_ne hne) (tree.way?_erase_self hroot)

variable (hfile : Path.NamesFile path) (hgone : tree.look false path = some (gone, .link target))
  (hbehind : tree.leads true path = some behind) (hleaf : tree.way? behind = none)
include hfile hgone hbehind hleaf

/-- A link at the end of a path leads on to where the path leads. -/
theorem walks_behind : tree.way? gone = some (.link target) ∧
    ∃ fewer, Walks tree.way? true fewer (linkStart gone target) (Path.split target).steps
      behind := by
  obtain ⟨hleads, hfind⟩ := look_eq_some_iff.mp hgone
  have hway : tree.way? gone = some (.link target) := way?_eq_link.mpr hfind
  obtain ⟨parsed, hparse, hwalks⟩ := (leads_file_iff hfile).mp hbehind
  obtain ⟨parsed', hparse', hstops⟩ := (leads_file_iff hfile).mp hleads
  obtain rfl := Except.ok.inj (hparse.symm.trans hparse')
  obtain ⟨stop, hstop, hgoal⟩ := hwalks.exists_stopping
  obtain rfl := hstops.unique hstop
  refine ⟨hway, ?_⟩
  rcases hgoal with rfl | ⟨target', fewer, hlink, honward⟩
  · simp [hway] at hleaf
  · obtain rfl := Entry.link.inj (Option.some.inj (hway.symm.trans hlink))
    exact ⟨fewer, honward⟩

/-- Without the link, its path leads to the empty place. -/
theorem leads_erased (through : Bool) : (tree.erase gone).leads through path = some gone := by
  obtain ⟨hleads, hfind⟩ := look_eq_some_iff.mp hgone
  have hroot : gone ≠ [] := tree.ne_nil_of_find? (by simp [hfind])
  obtain ⟨hway, fewer, honward⟩ := walks_behind hfile hgone hbehind hleaf
  obtain ⟨parsed, hparse, hwalks⟩ := (leads_file_iff hfile).mp hleads
  refine (leads_file_iff hfile).mpr ⟨parsed, hparse, ?_⟩
  exact Walks.to_erased (fun l hne => tree.way?_erase_ne hne) (tree.way?_erase_self hroot) hway
    honward (by simp [hleaf]) hwalks rfl

/-- Without the link, another path leads where it led, unless that was the link or behind it. -/
theorem leads_unlinked {through : Bool} {other : Bytes} {goal : Location}
    (hother : Path.NamesFile other) (hleads : tree.leads through other = some goal)
    (hne : goal ≠ gone) (hne' : goal ≠ behind) :
    (tree.erase gone).leads through other = some goal := by
  obtain ⟨hway, fewer, honward⟩ := walks_behind hfile hgone hbehind hleaf
  obtain ⟨parsed, hparse, hwalks⟩ := (leads_file_iff hother).mp hleads
  refine (leads_file_iff hother).mpr ⟨parsed, hparse, ?_⟩
  exact Walks.erased (fun l hne => tree.way?_erase_ne hne) hway honward (by simp [hleaf]) hwalks
    hne hne'

/-- Without the link, another path opens what it opened, unless that was behind the link. -/
theorem locate_unlinked {other : Bytes} {goal : Location} {entry : Entry}
    (hlocate : tree.locate other = .ok (goal, entry)) (hne : goal ≠ gone) (hne' : goal ≠ behind) :
    (tree.erase gone).locate other = .ok (goal, entry) := by
  obtain ⟨hway, fewer, honward⟩ := walks_behind hfile hgone hbehind hleaf
  rw [locate_eq_ok_iff, look_eq_some_iff, leads_eq_some_iff] at hlocate ⊢
  rw [tree.find?_erase_ne hne]
  obtain ⟨⟨parsed, hparse, hfollow⟩, hfind⟩ := hlocate
  obtain ⟨hwalks, -, hslash⟩ := follow_eq_ok_iff.mp hfollow
  refine ⟨⟨parsed, hparse, follow_eq_ok_iff.mpr ⟨?_, (tree.find?_erase_ne hne).symm, hslash⟩⟩,
    hfind⟩
  exact Walks.erased (fun l hne => tree.way?_erase_ne hne) hway honward (by simp [hleaf]) hwalks
    hne hne'

end Unlinked

end Tree

end DocHarvest.Files
