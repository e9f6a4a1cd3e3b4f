import DocHarvest.Proofs.Files.Walks

/-!
# What Paths Show

A path leads to a location and shows the entry there. The operations of a program on its files
are read here in those terms: opening and inspecting see what the path shows, writing a file
changes what one location holds and where no path leads, and removing an entry hides it from the
paths that led to it and from no others.

## Main definitions

* `Tree.leads`, `Tree.look` — the location a path leads to, and the entry it shows.
* `Tree.SameFile`, `Tree.Apart` — two paths lead to one file; two paths have nothing in common.
* `Tree.KeepsWrites` — no device stands where a path leads.
* `Tree.SameBut` — two trees differ in files at some locations only.

## Main results

* `Tree.SameBut.look_eq` — a path that leads elsewhere shows what it showed.
* `Tree.create_cases` — what opening a file for writing does, whatever stands at the path.
* `Tree.save_ok` — a saved file is at its path, and nothing else has changed.
* `Tree.inspect_removed` — a removed entry is missing at its path.
* `Tree.look_removed` — a path that is apart from a removed one shows what it showed.
-/

namespace DocHarvest.Files

/-- A written path that does not end in a slash can name a file. -/
def Path.NamesFile (path : Bytes) : Prop :=
  path.getLast? ≠ some Byte.slash

instance (path : Bytes) : Decidable (Path.NamesFile path) :=
  inferInstanceAs (Decidable (_ ≠ _))

/-- A path whose last part can name a file can do so as a whole. -/
theorem Path.namesFile_append {stem ending : Bytes} (hne : ending ≠ [])
    (h : Path.NamesFile ending) : Path.NamesFile (stem ++ ending) := by
  have hsome : ending.getLast?.isSome = true := by simpa using hne
  rw [Path.NamesFile, List.getLast?_append, Option.or_of_isSome hsome]
  exact h

/-- A path that can be parsed is split at its slashes. -/
theorem Path.parse_eq_ok {path : Bytes} {parsed : Path} (h : Path.parse path = .ok parsed) :
    parsed = Path.split path := by
  unfold Path.parse at h
  split at h
  · cases h
  split at h
  · cases h
  split at h
  · cases h
  · exact (Except.ok.inj h).symm

/-- A path that can name a file does not end in a slash. -/
theorem Path.NamesFile.endsInSlash {path : Bytes} {parsed : Path} (hfile : Path.NamesFile path)
    (h : Path.parse path = .ok parsed) : parsed.endsInSlash = false := by
  rw [Path.parse_eq_ok h]
  exact decide_eq_false hfile

/-- Files and directories are stored. A device keeps nothing of what is written to it. -/
def Entry.isStored : Entry → Bool
  | directory => true
  | file _ _ => true
  | _ => false

namespace Tree

/-- Where a path starts from. -/
def start (tree : Tree) (path : Path) : Location :=
  if path.fromRoot then [] else tree.workingDirectory

/-- The location that a path leads to, with a link at its end followed or not. -/
def leads (tree : Tree) (through : Bool) (path : Bytes) : Option Location :=
  match Path.parse path with
  | .error _ => none
  | .ok parsed =>
    match tree.follow through parsed with
    | .error _ => none
    | .ok place => some place.location

/-- What a path shows: the location it leads to and the entry there. -/
def look (tree : Tree) (through : Bool) (path : Bytes) : Option (Location × Entry) :=
  (tree.leads through path).bind fun location => (tree.find? location).map (location, ·)

/-- Two paths have no location in common, whether links at their ends are followed or not. -/
def Apart (tree : Tree) (path other : Bytes) : Prop :=
  ∀ a b : Bool, tree.leads a path = none ∨ tree.leads a path ≠ tree.leads b other

instance (tree : Tree) (path other : Bytes) : Decidable (tree.Apart path other) :=
  inferInstanceAs (Decidable (∀ _ _ : Bool, _))

/-- Two paths lead to one file, or would if it were there. -/
def SameFile (tree : Tree) (path other : Bytes) : Prop :=
  tree.leads true path ≠ none ∧ tree.leads true path = tree.leads true other

instance (tree : Tree) (path other : Bytes) : Decidable (tree.SameFile path other) :=
  inferInstanceAs (Decidable (_ ∧ _))

/-- What is written at a path is kept: no device stands where it leads. -/
def KeepsWrites (tree : Tree) (path : Bytes) : Prop :=
  (tree.look true path).all (fun shown => shown.2.isStored) = true

instance (tree : Tree) (path : Bytes) : Decidable (tree.KeepsWrites path) :=
  inferInstanceAs (Decidable (_ = _))

/-! ### Following a path -/

/-- **Following a path** is walking along its names, where a slash at the end asks for a directory
or for nothing. -/
theorem follow_eq_ok_iff {tree : Tree} {through : Bool} {path : Path} {place : Place} :
    tree.follow through path = .ok place ↔
      Walks tree.way? (through || path.endsInSlash) maxLinks (tree.start path) path.names
          place.location ∧
        place.found? = tree.find? place.location ∧
        (path.endsInSlash = true → place.found? = none ∨ place.found? = some .directory) := by
  have hdemand : ∀ reached : Place,
      (path.endsInSlash && reached.found?.isSome && reached.found? ≠ some .directory) = true ↔
        ¬ (path.endsInSlash = true →
          reached.found? = none ∨ reached.found? = some .directory) := by
    intro reached
    cases path.endsInSlash <;> cases reached.found? <;> simp
  rw [← and_assoc, ← walkLinks_eq_ok_iff, start, follow]
  cases tree.walkLinks (through || path.endsInSlash) maxLinks _ path.names with
  | error fault => simp
  | ok reached =>
    simp only [hdemand, Except.ok.injEq]
    split
    · rename_i hbad
      simp only [reduceCtorEq, false_iff]
      rintro ⟨rfl, hgood⟩
      exact hbad hgood
    · rename_i hgood
      rw [Except.ok.injEq]
      refine ⟨fun h => ⟨h, h ▸ Classical.not_not.mp hgood⟩, And.left⟩

/-- A path that can name a file is followed by walking along its names. -/
theorem follow_file {tree : Tree} {path : Path} (hfile : path.endsInSlash = false)
    (through : Bool) : tree.follow through path =
      tree.walkLinks through maxLinks (tree.start path) path.names := by
  rw [follow, start, hfile, Bool.or_false]
  cases tree.walkLinks through maxLinks _ path.names <;> simp

/-- A path leads somewhere when it is parsed and followed to there. -/
theorem leads_eq_some_iff {tree : Tree} {through : Bool} {path : Bytes} {location : Location} :
    tree.leads through path = some location ↔
      ∃ parsed, Path.parse path = .ok parsed ∧
        tree.follow through parsed = .ok ⟨location, tree.find? location⟩ := by
  unfold leads
  cases Path.parse path with
  | error fault => simp
  | ok parsed =>
    simp only [Except.ok.injEq, exists_eq_left']
    cases hfollow : tree.follow through parsed with
    | error fault => simp
    | ok place =>
      obtain ⟨-, hfound, -⟩ := follow_eq_ok_iff.mp hfollow
      obtain ⟨reached, found⟩ := place
      simp only [Option.some.injEq, Except.ok.injEq, Place.mk.injEq]
      exact ⟨fun h => ⟨h, by rw [← h]; exact hfound⟩, And.left⟩

/-- A path that can name a file leads where its names lead. -/
theorem leads_file_iff {tree : Tree} {through : Bool} {path : Bytes} {location : Location}
    (hfile : Path.NamesFile path) :
    tree.leads through path = some location ↔
      ∃ parsed, Path.parse path = .ok parsed ∧
        Walks tree.way? through maxLinks (tree.start parsed) parsed.names location := by
  rw [leads_eq_some_iff]
  refine exists_congr fun parsed => and_congr_right fun hparse => ?_
  simp [follow_eq_ok_iff, hfile.endsInSlash hparse]

/-- A path shows what stands where it leads. -/
theorem look_eq_some_iff {tree : Tree} {through : Bool} {path : Bytes} {location : Location}
    {entry : Entry} :
    tree.look through path = some (location, entry) ↔
      tree.leads through path = some location ∧ tree.find? location = some entry := by
  simp only [look, Option.bind_eq_some_iff, Option.map_eq_some_iff, Prod.mk.injEq]
  constructor
  · rintro ⟨reached, hleads, found, hfind, rfl, rfl⟩
    exact ⟨hleads, hfind⟩
  · rintro ⟨hleads, hfind⟩
    exact ⟨location, hleads, entry, hfind, rfl, rfl⟩

/-- Two paths that are apart lead to different locations. -/
theorem Apart.ne {tree : Tree} {path other : Bytes} (h : tree.Apart path other) {a b : Bool}
    {location : Location} (hpath : tree.leads a path = some location) :
    tree.leads b other ≠ some location := by
  rcases h a b with hnone | hne
  · simp [hnone] at hpath
  · exact fun hother => hne (hpath.trans hother.symm)

/-- To be apart is mutual. -/
theorem Apart.symm {tree : Tree} {path other : Bytes} (h : tree.Apart path other) :
    tree.Apart other path := by
  intro a b
  cases hother : tree.leads a other with
  | none => exact .inl rfl
  | some location => exact .inr fun hpath => h.ne hpath.symm hother

/-- Two paths that lead to one location are the same file. -/
theorem sameFile_of_leads {tree : Tree} {path other : Bytes} {location : Location}
    (h : tree.leads true path = some location) (h' : tree.leads true other = some location) :
    tree.SameFile path other :=
  ⟨by simp [h], h.trans h'.symm⟩

/-- A path that leads to something other than a link leads there also when links are followed. -/
theorem leads_true_of_not_link {tree : Tree} {path : Bytes} {location : Location}
    (hfile : Path.NamesFile path) (h : tree.leads false path = some location)
    (hlink : ∀ target, tree.way? location ≠ some (.link target)) :
    tree.leads true path = some location := by
  obtain ⟨parsed, hparse, hwalks⟩ := (leads_file_iff hfile).mp h
  exact (leads_file_iff hfile).mpr ⟨parsed, hparse, hwalks.through_of_not_link hlink⟩

/-- A path that shows something other than a link shows it also when links are followed. -/
theorem leads_true_of_look {tree : Tree} {path : Bytes} {location : Location} {entry : Entry}
    (hfile : Path.NamesFile path) (h : tree.look false path = some (location, entry))
    (hentry : ∀ target, entry ≠ .link target) : tree.leads true path = some location := by
  obtain ⟨hleads, hfind⟩ := look_eq_some_iff.mp h
  refine leads_true_of_not_link hfile hleads fun target hlink => ?_
  exact hentry target (Option.some.inj (hfind.symm.trans (way?_eq_link.mp hlink)))

/-! ### Opening and inspecting -/

/-- What a path opens is what it shows through links. -/
theorem locate_eq_ok_iff {tree : Tree} {path : Bytes} {location : Location} {entry : Entry} :
    tree.locate path = .ok (location, entry) ↔
      tree.look true path = some (location, entry) := by
  rw [look_eq_some_iff, leads_eq_some_iff]
  unfold locate
  cases Path.parse path with
  | error fault => simp [bind, Except.bind]
  | ok parsed =>
    simp only [bind, Except.bind, Except.ok.injEq, exists_eq_left']
    cases hfollow : tree.follow true parsed with
    | error fault => simp
    | ok place =>
      obtain ⟨-, hfound, -⟩ := follow_eq_ok_iff.mp hfollow
      obtain ⟨reached, found⟩ := place
      simp only at hfound
      subst hfound
      simp only [Except.ok.injEq, Place.mk.injEq]
      cases hfind : tree.find? reached with
      | none =>
        simp only [reduceCtorEq, false_iff]
        rintro ⟨⟨rfl, -⟩, hsome⟩
        simp [hfind] at hsome
      | some shown =>
        simp only [Except.ok.injEq, Prod.mk.injEq]
        constructor
        · rintro ⟨rfl, rfl⟩
          exact ⟨⟨rfl, hfind.symm⟩, hfind⟩
        · rintro ⟨⟨rfl, -⟩, hsome⟩
          exact ⟨rfl, Option.some.inj (hfind.symm.trans hsome)⟩

/-- What a path shows through links is what is inspected. -/
theorem inspect_eq_ok {tree : Tree} {path : Bytes} {location : Location} {entry : Entry}
    (h : tree.look true path = some (location, entry)) : tree.inspect path = .ok entry := by
  rw [inspect, locate_eq_ok_iff.mpr h]
  rfl

/-- A path that shows a file is read as its content. -/
theorem contents_eq_ok {tree : Tree} {path content : Bytes} {location : Location}
    {executable : Bool} (h : tree.look true path = some (location, .file content executable)) :
    tree.contents path = .ok content := by
  rw [contents, inspect_eq_ok h]

/-! ### Trees that differ in files -/

/-- Two trees differ in files at the given locations and in nothing else. -/
structure SameBut (places : List Location) (tree tree' : Tree) : Prop where
  workingDirectory : tree'.workingDirectory = tree.workingDirectory
  way? : tree'.way? = tree.way?
  find? : ∀ location, location ∉ places → tree'.find? location = tree.find? location

namespace SameBut

variable {places : List Location} {tree tree' : Tree} {path : Bytes}

/-- Nothing needs to have changed. -/
theorem refl (tree : Tree) : SameBut [] tree tree := ⟨rfl, rfl, fun _ _ => rfl⟩

/-- Changes one after another. -/
theorem trans {others : List Location} {tree'' : Tree} (h : SameBut places tree tree')
    (h' : SameBut others tree' tree'') : SameBut (places ++ others) tree tree'' where
  workingDirectory := h'.workingDirectory.trans h.workingDirectory
  way? := h'.way?.trans h.way?
  find? location hnot := by
    rw [List.mem_append, not_or] at hnot
    rw [h'.find? location hnot.2, h.find? location hnot.1]

/-- The order of the trees does not matter. -/
theorem symm (h : SameBut places tree tree') : SameBut places tree' tree :=
  ⟨h.workingDirectory.symm, h.way?.symm, fun l hnot => (h.find? l hnot).symm⟩

/-- What has changed at some places alone has changed at more places alone. -/
theorem mono {more : List Location} (h : SameBut places tree tree') (hsub : places ⊆ more) :
    SameBut more tree tree' :=
  ⟨h.workingDirectory, h.way?, fun l hnot => h.find? l fun hmem => hnot (hsub hmem)⟩

/-- Paths start from the same location. -/
theorem start_eq (h : SameBut places tree tree') (parsed : Path) :
    tree'.start parsed = tree.start parsed := by
  rw [start, start, h.workingDirectory]

/-- Paths lead where they led. -/
theorem leads_eq (h : SameBut places tree tree') (hfile : Path.NamesFile path) (through : Bool) :
    tree'.leads through path = tree.leads through path := by
  refine Option.ext fun location => ?_
  simp only [leads_file_iff hfile, h.way?, h.start_eq]

/-- A path that leads elsewhere shows what it showed. -/
theorem look_eq (h : SameBut places tree tree') (hfile : Path.NamesFile path) {through : Bool}
    (helsewhere : ∀ location ∈ places, tree.leads through path ≠ some location) :
    tree'.look through path = tree.look through path := by
  rw [look, look, h.leads_eq hfile]
  cases hleads : tree.leads through path with
  | none => rfl
  | some location =>
    have hnot : location ∉ places := fun hmem => helsewhere location hmem hleads
    simp only [Option.bind_some, h.find? location hnot]

/-- What is opened elsewhere could have been opened before. -/
theorem locate_eq (h : SameBut places tree tree') {location : Location} {entry : Entry}
    (hlocate : tree'.locate path = .ok (location, entry)) (hnot : location ∉ places) :
    tree.locate path = .ok (location, entry) := by
  rw [locate_eq_ok_iff, look_eq_some_iff, leads_eq_some_iff] at hlocate ⊢
  obtain ⟨⟨parsed, hparse, hfollow⟩, hfind⟩ := hlocate
  rw [follow_eq_ok_iff, h.way?, h.start_eq, h.find? location hnot] at hfollow
  rw [h.find? location hnot] at hfind
  exact ⟨⟨parsed, hparse, follow_eq_ok_iff.mpr hfollow⟩, hfind⟩

end SameBut

/-- A path that opens something other than a directory does not end in a slash. -/
theorem namesFile_of_locate {tree : Tree} {path : Bytes} {location : Location} {entry : Entry}
    (h : tree.locate path = .ok (location, entry)) (hentry : entry ≠ .directory) :
    Path.NamesFile path := by
  rw [locate_eq_ok_iff, look_eq_some_iff, leads_eq_some_iff] at h
  obtain ⟨⟨parsed, hparse, hfollow⟩, hfind⟩ := h
  obtain ⟨-, -, hslash⟩ := follow_eq_ok_iff.mp hfollow
  intro hends
  have hparsed : parsed.endsInSlash = true := by
    rw [Path.parse_eq_ok hparse]
    exact decide_eq_true hends
  rcases hslash hparsed with hnone | hdir
  · rw [hfind] at hnone
    cases hnone
  · rw [hfind] at hdir
    exact hentry (Option.some.inj hdir)

/-! ### Writing -/

/-- Writing a file where no way is changes nothing else. -/
theorem sameBut_set (tree : Tree) {location : Location} (hleaf : tree.way? location = none)
    (content : Bytes) (executable : Bool) :
    SameBut [location] tree (tree.set location (.file content executable)) := by
  have hroot : location ≠ [] := ne_nil_of_find? (way?_eq_none.mp hleaf).1
  have hfind : ∀ other, other ≠ location →
      (tree.set location (.file content executable)).find? other = tree.find? other :=
    fun other hne => tree.find?_set_ne hne _
  refine ⟨rfl, funext fun other => ?_, fun other hnot => hfind other (by simpa using hnot)⟩
  by_cases hother : other = location
  · subst hother
    rw [hleaf, Tree.way?, tree.find?_set_self hroot]
    rfl
  · rw [Tree.way?, hfind other hother, Tree.way?]

/-- A walk ends at a place when it does so with more links that lead there. -/
theorem walk_of_onLink {tree : Tree} {through : Bool} {place : Place}
    {onLink onLink' : Location → Bytes → List Bytes → Except Fault Place}
    (hlinks : ∀ location target rest, onLink location target rest = .ok place →
      onLink' location target rest = .ok place)
    {location : Location} {names : List Bytes}
    (h : tree.walk through onLink location names = .ok place) :
    tree.walk through onLink' location names = .ok place := by
  induction names generalizing location with
  | nil => exact h
  | cons name rest ih =>
    unfold walk at h ⊢
    split at h
    · cases h
    rw [if_neg ‹_›]
    split at h
    · rw [if_pos ‹_›]
      exact ih h
    rw [if_neg ‹_›]
    split at h
    · rw [if_pos ‹_›]
      exact ih h
    rw [if_neg ‹_›]
    split at h
    · cases h
    rw [if_neg ‹_›]
    cases hfind : tree.find? (location ++ [name]) with
    | none => simpa only [hfind] using h
    | some entry =>
      cases entry with
      | link target =>
        simp only [hfind] at h ⊢
        split
        · simpa only [if_pos ‹_›] using h
        · exact hlinks location target rest (by simpa only [if_neg ‹_›] using h)
      | directory | file | discard | full =>
        simp only [hfind] at h ⊢
        exact ih h

/-- The place of a file that is to be written is where its names lead. -/
theorem walkLinks_of_walkToWrite {tree : Tree} {links : Nat} {location : Location}
    {names : List Bytes} {place : Place}
    (h : tree.walkToWrite links location names = .ok place) :
    tree.walkLinks true links location names = .ok place := by
  induction links generalizing location names with
  | zero => exact h
  | succ links ih =>
    unfold walkToWrite at h
    unfold walkLinks
    refine walk_of_onLink (fun _ _ _ hlink => ?_) h
    dsimp only at hlink
    split at hlink
    · cases hlink
    · exact ih hlink

/-- A file can be written where names lead, unless they lead to a directory. -/
theorem walkToWrite_of_walkLinks {tree : Tree} {links : Nat} {location : Location}
    {names : List Bytes} {place : Place}
    (h : tree.walkLinks true links location names = .ok place)
    (hplace : place.found? ≠ some .directory) :
    tree.walkToWrite links location names = .ok place := by
  induction links generalizing location names with
  | zero => exact h
  | succ links ih =>
    unfold walkLinks at h
    unfold walkToWrite
    refine walk_of_onLink (fun l target rest hlink => ?_) h
    dsimp only at hlink ⊢
    split
    next hslash =>
      obtain ⟨hrest, hends⟩ := Bool.and_eq_true_iff.mp hslash
      rw [List.isEmpty_iff.mp hrest, List.append_nil, Path.steps, if_pos hends,
        walkLinks_eq_ok_iff] at hlink
      have hdirectory := way?_eq_directory.mp hlink.1.directory_of_here
      exact absurd (hlink.2.trans hdirectory) hplace
    · exact ih hlink

/-- The place of a file that is to be written at a path is where the path leads. -/
theorem follow_of_target {tree : Tree} {parsed : Path} {place : Place}
    (h : tree.target parsed = .ok place) : tree.follow true parsed = .ok place := by
  unfold target at h
  dsimp only at h
  split at h
  · cases h
  next hfile =>
    rw [follow_file (by simpa using hfile)]
    exact walkLinks_of_walkToWrite h

/-- A file can be written where a path leads, unless that is a directory. -/
theorem target_of_follow {tree : Tree} {parsed : Path} {place : Place}
    (hfile : parsed.endsInSlash = false) (h : tree.follow true parsed = .ok place)
    (hplace : place.found? ≠ some .directory) : tree.target parsed = .ok place := by
  rw [follow_file hfile] at h
  simp only [target, hfile, Bool.false_eq_true, if_false]
  exact walkToWrite_of_walkLinks h hplace

/-- Nothing is written where a path leads to a directory. -/
theorem create_directory {tree : Tree} {path : Bytes} {location : Location}
    (hleads : tree.leads true path = some location)
    (hdirectory : tree.find? location = some .directory) :
    ∃ fault, tree.create path = .error fault := by
  obtain ⟨parsed, hparse, hfollow⟩ := leads_eq_some_iff.mp hleads
  cases htarget : tree.target parsed with
  | error fault => exact ⟨fault, by simp [create, hparse, htarget, bind, Except.bind]⟩
  | ok place =>
    obtain rfl := Except.ok.inj (hfollow.symm.trans (follow_of_target htarget))
    exact ⟨.isDirectory, by simp [create, hparse, htarget, hdirectory, bind, Except.bind]⟩

/-- A file is no way. -/
theorem way?_file {tree : Tree} {location : Location} {content : Bytes} {executable : Bool}
    (h : tree.find? location = some (.file content executable)) : tree.way? location = none := by
  simp [way?, h, Entry.isWay]

/-- **What opening a file for writing does**, whatever stands at the path: a file is emptied, or
made where there was nothing, and anything else stays as it is. A directory is never opened. -/
theorem create_cases {tree opened : Tree} {path : Bytes} {location : Location}
    (h : tree.create path = .ok (location, opened)) :
    tree.leads true path = some location ∧ tree.find? location ≠ some .directory ∧
      ((∃ executable, tree.way? location = none ∧
          opened = tree.set location (.file [] executable)) ∨
        ∃ entry, tree.find? location = some entry ∧ entry.isStored = false ∧ opened = tree) := by
  unfold create at h
  cases hparse : Path.parse path with
  | error fault => simp [hparse, bind, Except.bind] at h
  | ok parsed =>
  cases htarget : tree.target parsed with
  | error fault => simp [hparse, htarget, bind, Except.bind] at h
  | ok place =>
  obtain ⟨reached, found?⟩ := place
  have hfollow := follow_of_target htarget
  obtain rfl : found? = tree.find? reached := (follow_eq_ok_iff.mp hfollow).2.1
  have hleads : tree.leads true path = some reached :=
    leads_eq_some_iff.mpr ⟨parsed, hparse, hfollow⟩
  simp only [hparse, htarget, bind, Except.bind] at h
  cases hfind : tree.find? reached with
  | none =>
    simp only [hfind, Except.ok.injEq, Prod.mk.injEq] at h
    obtain ⟨rfl, rfl⟩ := h
    exact ⟨hleads, by simp [hfind], .inl ⟨false, by simp [way?, hfind], rfl⟩⟩
  | some entry =>
    cases entry with
    | directory => simp [hfind] at h
    | file content executable =>
      simp only [hfind, Except.ok.injEq, Prod.mk.injEq] at h
      obtain ⟨rfl, rfl⟩ := h
      exact ⟨hleads, by simp [hfind], .inl ⟨executable, way?_file hfind, rfl⟩⟩
    | link | discard | full =>
      simp only [hfind, Except.ok.injEq, Prod.mk.injEq] at h
      obtain ⟨rfl, rfl⟩ := h
      exact ⟨hleads, by simp [hfind], .inr ⟨_, hfind, rfl, rfl⟩⟩

/-- Opening a file for writing changes nothing elsewhere. -/
theorem create_sameBut {tree opened : Tree} {path : Bytes} {location : Location}
    (h : tree.create path = .ok (location, opened)) : SameBut [location] tree opened := by
  obtain ⟨-, -, ⟨executable, hleaf, rfl⟩ | ⟨-, -, -, rfl⟩⟩ := create_cases h
  · exact tree.sameBut_set hleaf [] executable
  · exact (SameBut.refl opened).mono (by simp)

/-- A file that is opened for writing stands empty where its path leads. -/
theorem create_ok {tree opened : Tree} {path : Bytes} {location : Location}
    (hkeeps : tree.KeepsWrites path) (h : tree.create path = .ok (location, opened)) :
    tree.leads true path = some location ∧ tree.way? location = none ∧
      ∃ executable, opened = tree.set location (.file [] executable) := by
  obtain ⟨hleads, -, ⟨executable, hleaf, hopened⟩ | ⟨entry, hfind, hstored, -⟩⟩ := create_cases h
  · exact ⟨hleads, hleaf, executable, hopened⟩
  · simp [KeepsWrites, look, hleads, hfind, hstored] at hkeeps

/-- Text is added at the end of a file. -/
theorem append_file {tree : Tree} {location : Location} {content : Bytes} {executable : Bool}
    (h : tree.find? location = some (.file content executable)) (text : Bytes) :
    tree.append location text = .ok (tree.set location (.file (content ++ text) executable)) := by
  simp [append, h]

/-- A file that was written is found. -/
theorem find?_set_file {tree : Tree} {location : Location} (hleaf : tree.way? location = none)
    (content : Bytes) (executable : Bool) :
    (tree.set location (.file content executable)).find? location =
      some (.file content executable) :=
  tree.find?_set_self (ne_nil_of_find? (way?_eq_none.mp hleaf).1) _

/-- **A saved file is at its path**, and nothing else has changed. -/
theorem save_ok {tree saved : Tree} {path text : Bytes} (hkeeps : tree.KeepsWrites path)
    (h : tree.save path text = (.ok (), saved)) :
    ∃ location executable, tree.leads true path = some location ∧
      saved.find? location = some (.file text executable) ∧ SameBut [location] tree saved := by
  unfold save at h
  cases hcreate : tree.create path with
  | error fault => simp [hcreate] at h
  | ok result =>
  obtain ⟨location, opened⟩ := result
  obtain ⟨hleads, hleaf, executable, rfl⟩ := create_ok hkeeps hcreate
  have hopened := find?_set_file hleaf [] executable
  have hwritten := way?_file hopened
  simp only [hcreate, append_file hopened, List.nil_append, Prod.mk.injEq, true_and] at h
  subst h
  refine ⟨location, executable, hleads, find?_set_file hwritten text executable, ?_⟩
  have hsame := (tree.sameBut_set hleaf [] executable).trans
    (sameBut_set _ hwritten text executable)
  exact hsame.mono (by simp)

/-! ### Removing -/

/-- What is removed is the entry that the path shows when a link at its end is not followed. -/
theorem remove_ok {tree removed : Tree} {path : Bytes} (h : tree.remove path = .ok removed) :
    ∃ location entry, tree.look false path = some (location, entry) ∧
      removed = tree.erase location := by
  unfold remove at h
  cases hparse : Path.parse path with
  | error fault => simp [hparse, bind, Except.bind] at h
  | ok parsed =>
  cases hfollow : tree.follow false parsed with
  | error fault => simp [hparse, hfollow, bind, Except.bind] at h
  | ok place =>
  obtain ⟨location, found?⟩ := place
  obtain rfl : found? = tree.find? location := (follow_eq_ok_iff.mp hfollow).2.1
  have hleads : tree.leads false path = some location :=
    leads_eq_some_iff.mpr ⟨parsed, hparse, hfollow⟩
  simp only [hparse, hfollow, bind, Except.bind] at h
  cases hfind : tree.find? location with
  | none => simp [hfind] at h
  | some entry =>
    refine ⟨location, entry, look_eq_some_iff.mpr ⟨hleads, hfind⟩, ?_⟩
    cases entry with
    | directory =>
      simp only [hfind] at h
      split at h
      · cases h
      split at h
      · exact (Except.ok.inj h).symm
      · cases h
    | file | link | discard | full =>
      simp only [hfind, Except.ok.injEq] at h
      exact h.symm

section Removed

variable {tree removed : Tree} {path content : Bytes} {location : Location} {executable : Bool}
  (hfile : Path.NamesFile path)
  (hlook : tree.look true path = some (location, .file content executable))
  (hremove : tree.remove path = .ok removed)
include hfile hlook hremove

/-- A path that shows a file is removed as that file, or as a link that leads to it. -/
theorem remove_cases : ∃ parsed gone, Path.parse path = .ok parsed ∧
    removed = tree.erase gone ∧ tree.leads false path = some gone ∧
    Walks tree.way? false maxLinks (tree.start parsed) parsed.names gone ∧
    tree.find? gone ≠ some .directory ∧
    (gone = location ∨ ∃ target fewer, tree.way? gone = some (.link target) ∧
      Walks tree.way? true fewer (linkStart gone target) (Path.split target).steps location) := by
  obtain ⟨gone, entry, hgone, rfl⟩ := remove_ok hremove
  obtain ⟨hleadsGone, hfindGone⟩ := look_eq_some_iff.mp hgone
  obtain ⟨hleads, hfind⟩ := look_eq_some_iff.mp hlook
  obtain ⟨parsed, hparse, hwalks⟩ := (leads_file_iff hfile).mp hleads
  obtain ⟨parsed', hparse', hwalksGone⟩ := (leads_file_iff hfile).mp hleadsGone
  obtain rfl := Except.ok.inj (hparse.symm.trans hparse')
  obtain ⟨stop, hstop, hgoal⟩ := hwalks.exists_stopping
  obtain rfl := hwalksGone.unique hstop
  refine ⟨parsed, gone, hparse, rfl, hleadsGone, hstop, ?_, hgoal⟩
  rcases hgoal with rfl | ⟨target, fewer, hlink, -⟩
  · simp [hfind]
  · simp [way?_eq_link.mp hlink]

/-- **A removed entry is missing at its path**, and the path shows nothing at all. -/
theorem inspect_removed : removed.inspect path = .error .missing ∧
    ∀ through, removed.look through path = none := by
  obtain ⟨parsed, gone, hparse, rfl, -, hwalks, hdir, -⟩ := remove_cases hfile hlook hremove
  have hmissing : ∀ through,
      (tree.erase gone).follow through parsed = .ok ⟨gone, none⟩ ∨
        (tree.erase gone).follow through parsed = .error .missing := fun through => by
    rw [follow_file (hfile.endsInSlash hparse)]
    exact walkLinks_erase hdir hwalks
  refine ⟨?_, fun through => ?_⟩
  · rcases hmissing true with h | h <;>
      simp [inspect, locate, hparse, h, bind, Except.bind, Except.map]
  · have hnone := tree.find?_erase_self (ne_nil_of_find? hdir)
    rcases hmissing through with h | h <;> simp [look, leads, hparse, h, hnone]

/-- A path that does not lead where a removed one led shows what it showed. -/
theorem look_removed {other : Bytes} (hother : Path.NamesFile other) {through : Bool}
    (hapart : ∀ found entry a, tree.look through other = some (found, entry) →
      tree.leads a path ≠ some found) :
    removed.look through other = tree.look through other := by
  obtain ⟨hleads, hfind⟩ := look_eq_some_iff.mp hlook
  obtain ⟨parsed, gone, hparse, rfl, hleadsGone, hwalks, hdir, hgoal⟩ :=
    remove_cases hfile hlook hremove
  have hroot := ne_nil_of_find? hdir
  have hothers : ∀ l, l ≠ gone → (tree.erase gone).way? l = tree.way? l :=
    fun l hne => tree.way?_erase_ne hne
  refine Option.ext fun ⟨found, entry⟩ => ?_
  simp only [look_eq_some_iff, leads_file_iff hother]
  constructor
  · rintro ⟨⟨parsed', hparse', hwalks'⟩, hfind'⟩
    have hne : found ≠ gone := by
      rintro rfl
      simp [tree.find?_erase_self hroot] at hfind'
    rw [tree.find?_erase_ne hne] at hfind'
    have hled := (hwalks'.of_erased hothers (tree.way?_erase_self hroot)).resolve_left hne
    exact ⟨⟨parsed', hparse', hled⟩, hfind'⟩
  · rintro ⟨⟨parsed', hparse', hwalks'⟩, hfind'⟩
    have hshown : tree.look through other = some (found, entry) :=
      look_eq_some_iff.mpr ⟨(leads_file_iff hother).mpr ⟨parsed', hparse', hwalks'⟩, hfind'⟩
    have hne : found ≠ gone := fun h => hapart found entry false hshown (h ▸ hleadsGone)
    have hne' : found ≠ location := fun h => hapart found entry true hshown (h ▸ hleads)
    refine ⟨⟨parsed', hparse', ?_⟩, by rw [tree.find?_erase_ne hne, hfind']⟩
    rcases hgoal with rfl | ⟨target, fewer, hlink, hbehind⟩
    · have hsame : (tree.erase gone).way? = tree.way? := funext fun l => by
        by_cases hl : l = gone
        · rw [hl, tree.way?_erase_self hroot, way?_file hfind]
        · exact hothers l hl
      rw [hsame]
      exact hwalks'
    · have hleaf : tree.way? location ≠ some .directory := by simp [way?_file hfind]
      exact Walks.erased hothers hlink hbehind hleaf hwalks' hne hne'

end Removed

end Tree

end DocHarvest.Files
