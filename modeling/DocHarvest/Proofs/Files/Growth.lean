import DocHarvest.Proofs.Files.Places

/-!
# Files That Grow

A program that holds a file open writes at its end, and what it writes changes the content of
that file and nothing else. Trees that differ in the contents of files alone are walked alike,
down to the fault with which a walk ends; so while one file grows, every path that does not lead
to it opens what it opened before, or fails as it failed before.

## Main definitions

* `Tree.written` — the tree after a text was written at the end of an open file.
* `Tree.Alike` — two trees differ in what files hold and in nothing else.

## Main results

* `Tree.written_written` — texts written one after another are written as one text.
* `Tree.save_sameBut` — saving a file changes nothing elsewhere, whether or not it succeeds.
* `Tree.Alike.follow` — trees that are alike lead every path to one place, or to one fault.
* `Tree.locate_written` — a path that does not lead to a growing file opens what it opened.
-/

namespace DocHarvest.Files

/-- What an entry is, without what is stored in it. -/
def Entry.kind : Entry → Entry
  | file _ _ => file [] false
  | entry => entry

namespace Tree

/-! ### Setting an entry again -/

/-- Of two entries that are put at a location, the second stays. -/
theorem put_put (location : Location) (first second : Entry) (entries : List (Location × Entry)) :
    put location second (put location first entries) = put location second entries := by
  induction entries with
  | nil => simp [put]
  | cons head others ih =>
    obtain ⟨l, e⟩ := head
    by_cases h : l = location
    · simp [put, h]
    · simp [put, h, ih]

/-- To put at a location what is there changes nothing. -/
theorem put_of_lookup {location : Location} {entry : Entry} {entries : List (Location × Entry)}
    (h : entries.lookup location = some entry) : put location entry entries = entries := by
  induction entries with
  | nil => simp at h
  | cons head others ih =>
    obtain ⟨l, e⟩ := head
    by_cases hl : l = location
    · subst hl
      obtain rfl : e = entry := by simpa using h
      simp [put]
    · have hne : (location == l) = false := beq_eq_false_iff_ne.mpr (Ne.symm hl)
      rw [List.lookup_cons, hne] at h
      simp [put, hl, ih h]

/-- Of two entries that are set at a location, the second stays. -/
theorem set_set (tree : Tree) (location : Location) (first second : Entry) :
    (tree.set location first).set location second = tree.set location second := by
  simp [set, put_put]

/-- To set at a location what is there changes nothing. -/
theorem set_of_find? {tree : Tree} {location : Location} {entry : Entry} (hroot : location ≠ [])
    (h : tree.find? location = some entry) : tree.set location entry = tree := by
  have hlookup : tree.entries.lookup location = some entry := by simpa [find?, hroot] using h
  simp [set, put_of_lookup hlookup]

/-! ### Writing at the end of a file -/

/-- The tree after a text was written at the end of an open file. What is written to anything
but a file is lost. -/
def written (tree : Tree) (location : Location) (text : Bytes) : Tree :=
  match tree.find? location with
  | some (.file content executable) => tree.set location (.file (content ++ text) executable)
  | _ => tree

section Written

variable {tree : Tree} {location : Location} {content : Bytes} {executable : Bool}

/-- Text is written at the end of a file. -/
theorem written_file (h : tree.find? location = some (.file content executable)) (text : Bytes) :
    tree.written location text = tree.set location (.file (content ++ text) executable) := by
  simp [written, h]

/-- Text is lost where there is no file. -/
theorem written_other (h : ∀ content executable,
    tree.find? location ≠ some (.file content executable)) (text : Bytes) :
    tree.written location text = tree := by
  unfold written
  split
  · rename_i content executable hfile
    exact absurd hfile (h content executable)
  · rfl

/-- A file that was written on has the text at its end. -/
theorem find?_written_file (h : tree.find? location = some (.file content executable))
    (text : Bytes) : (tree.written location text).find? location =
      some (.file (content ++ text) executable) := by
  rw [written_file h, find?_set_file (way?_file h)]

/-- What is at a location is a file or something that cannot hold a text. -/
theorem file_or_other (tree : Tree) (location : Location) :
    (∃ content executable, tree.find? location = some (.file content executable)) ∨
      ∀ content executable, tree.find? location ≠ some (.file content executable) := by
  by_cases h : ∃ content executable, tree.find? location = some (.file content executable)
  · exact .inl h
  · exact .inr fun content executable hfile => h ⟨content, executable, hfile⟩

/-- Writing succeeds unless there is no space. -/
theorem append_eq_written (h : tree.find? location ≠ some .full) (text : Bytes) :
    tree.append location text = .ok (tree.written location text) := by
  unfold append written
  cases hfind : tree.find? location with
  | none => rfl
  | some entry =>
    cases entry with
    | full => exact absurd hfind h
    | directory | file | link | discard => rfl

/-- To write nothing changes nothing. -/
@[simp]
theorem written_nil (tree : Tree) (location : Location) : tree.written location [] = tree := by
  rcases tree.file_or_other location with ⟨content, executable, hfile⟩ | hother
  · have hroot : location ≠ [] := ne_nil_of_find? (way?_eq_none.mp (way?_file hfile)).1
    rw [written_file hfile, List.append_nil, set_of_find? hroot hfile]
  · exact written_other hother []

/-- **Texts written one after another are written as one text.** -/
theorem written_written (tree : Tree) (location : Location) (first second : Bytes) :
    (tree.written location first).written location second =
      tree.written location (first ++ second) := by
  rcases tree.file_or_other location with ⟨content, executable, hfile⟩ | hother
  · rw [written_file (find?_written_file hfile first), written_file hfile, written_file hfile,
      set_set, List.append_assoc]
  · rw [written_other hother, written_other hother, written_other hother]

/-- Writing at a location leaves the others alone. -/
theorem find?_written_ne {other : Location} (h : other ≠ location) (text : Bytes) :
    (tree.written location text).find? other = tree.find? other := by
  rcases tree.file_or_other location with ⟨content, executable, hfile⟩ | hother
  · rw [written_file hfile, tree.find?_set_ne h]
  · rw [written_other hother]

/-- Writing on a file changes nothing else. -/
theorem sameBut_written (tree : Tree) (location : Location) (text : Bytes) :
    SameBut [location] tree (tree.written location text) := by
  rcases tree.file_or_other location with ⟨content, executable, hfile⟩ | hother
  · rw [written_file hfile]
    exact tree.sameBut_set (way?_file hfile) _ _
  · rw [written_other hother]
    exact (SameBut.refl tree).mono (by simp)

/-- Saving a file, also one that cannot be written in full, changes nothing elsewhere. -/
theorem save_sameBut (tree : Tree) (path text : Bytes) :
    (tree.save path text).2 = tree ∨ ∃ location, tree.leads true path = some location ∧
      SameBut [location] tree (tree.save path text).2 := by
  unfold save
  cases hcreate : tree.create path with
  | error fault => exact .inl rfl
  | ok result =>
    obtain ⟨location, opened⟩ := result
    have hopened := create_sameBut hcreate
    refine .inr ⟨location, (create_cases hcreate).1, ?_⟩
    by_cases hfull : opened.find? location = some .full
    · simpa [append, hfull] using hopened
    · simp only [append_eq_written hfull]
      exact (hopened.trans (opened.sameBut_written location text)).mono (by simp)

end Written

/-! ### Trees that are alike -/

/-- **Two trees are alike** when they differ in what files hold and in nothing else. -/
structure Alike (tree tree' : Tree) : Prop where
  workingDirectory : tree'.workingDirectory = tree.workingDirectory
  kind : ∀ location,
    (tree'.find? location).map Entry.kind = (tree.find? location).map Entry.kind

/-- A tree in which a file was written on is alike. -/
theorem alike_written (tree : Tree) (location : Location) (text : Bytes) :
    Alike tree (tree.written location text) := by
  refine ⟨(tree.sameBut_written location text).workingDirectory, fun other => ?_⟩
  by_cases hother : other = location
  · subst hother
    rcases tree.file_or_other other with ⟨content, executable, hfile⟩ | hne
    · rw [find?_written_file hfile, hfile]
      rfl
    · rw [written_other hne]
  · rw [find?_written_ne hother]

/-- The place at the same location, as a tree shows it. -/
def shown (tree : Tree) (place : Place) : Place :=
  ⟨place.location, tree.find? place.location⟩

namespace Alike

variable {tree tree' : Tree} (h : Alike tree tree')
include h

/-- What is missing in one of two trees that are alike is missing in the other. -/
theorem find?_eq_none {location : Location} :
    tree'.find? location = none ↔ tree.find? location = none := by
  simpa using congrArg (· = none) (h.kind location)

/-- Anything but a file is the same in both trees. -/
theorem find?_eq_some {location : Location} {entry : Entry}
    (hentry : ∀ content executable, entry ≠ .file content executable) :
    tree'.find? location = some entry ↔ tree.find? location = some entry := by
  have hkind := h.kind location
  cases hfind : tree.find? location with
  | none => simp [h.find?_eq_none.mpr hfind]
  | some found =>
    cases hfind' : tree'.find? location with
    | none => simp [h.find?_eq_none.mp hfind'] at hfind
    | some found' =>
      rw [hfind, hfind', Option.map_some, Option.map_some, Option.some.injEq] at hkind
      rw [Option.some.injEq, Option.some.injEq]
      cases found <;> cases found' <;> simp only [Entry.kind, reduceCtorEq] at hkind
      case file.file => simp [Ne.symm (hentry _ _)]
      all_goals simp [hkind]

/-- A walk along names, when links lead alike. -/
theorem walk {through : Bool} {onLink onLink' : Location → Bytes → List Bytes → Except Fault Place}
    (hlinks : ∀ location target rest,
      onLink' location target rest = (onLink location target rest).map tree'.shown)
    (location : Location) (names : List Bytes) :
    tree'.walk through onLink' location names =
      (tree.walk through onLink location names).map tree'.shown := by
  have hdirectory : ∀ l, tree'.find? l = some .directory ↔ tree.find? l = some .directory :=
    fun l => h.find?_eq_some (by simp)
  induction names generalizing location with
  | nil => rfl
  | cons name rest ih =>
    simp only [Tree.walk, ne_eq, hdirectory, ih]
    split
    · rfl
    split
    · rfl
    split
    · rfl
    split
    · rfl
    cases hfind : tree.find? (location ++ [name]) with
    | none =>
      have hnone := h.find?_eq_none.mpr hfind
      simp only [hnone]
      split <;> simp [Except.map, shown, hnone]
    | some entry =>
      cases entry with
      | link target =>
        have hlink := (h.find?_eq_some (by simp)).mpr hfind
        simp only [hlink, hlinks]
        split <;> simp [Except.map, shown, hlink]
      | directory | discard | full =>
        have hsame := (h.find?_eq_some (by simp)).mpr hfind
        simp only [hsame]
      | file content executable =>
        have hkind := h.kind (location ++ [name])
        cases hfind' : tree'.find? (location ++ [name]) with
        | none => simp [hfind, hfind'] at hkind
        | some entry' => cases entry' <;> simp_all [Entry.kind]

/-- Names lead to one location in trees that are alike. -/
theorem walkLinks (through : Bool) (links : Nat) (location : Location) (names : List Bytes) :
    tree'.walkLinks through links location names =
      (tree.walkLinks through links location names).map tree'.shown := by
  induction links generalizing location names with
  | zero =>
    unfold Tree.walkLinks
    refine h.walk (fun _ _ _ => ?_) location names
    rfl
  | succ links ih =>
    unfold Tree.walkLinks
    exact h.walk (fun _ _ _ => ih _ _) location names

/-- **Trees that are alike lead every path to one place, or to one fault.** -/
theorem follow (through : Bool) (path : Path) :
    tree'.follow through path = (tree.follow through path).map tree'.shown := by
  simp only [Tree.follow, h.workingDirectory, h.walkLinks]
  cases hwalk : tree.walkLinks (through || path.endsInSlash) maxLinks _ path.names with
  | error fault => rfl
  | ok place =>
    have hfound := (walkLinks_eq_ok_iff.mp hwalk).2
    have hsome : (tree'.shown place).found?.isSome = place.found?.isSome := by
      simpa [shown, hfound] using congrArg Option.isSome (h.kind place.location)
    have hdirectory : (tree'.shown place).found? = some .directory ↔
        place.found? = some .directory := by
      rw [hfound]
      exact h.find?_eq_some (by simp)
    simp only [Except.map, hsome, ne_eq, hdirectory]
    split <;> rfl

/-- A path opens the same location, or fails alike. -/
theorem locate (path : Bytes) (hsame : ∀ location entry,
      tree.locate path = .ok (location, entry) → tree'.find? location = some entry) :
    tree'.locate path = tree.locate path := by
  unfold Tree.locate at hsame ⊢
  cases hparse : Path.parse path with
  | error fault => rfl
  | ok parsed =>
    simp only [hparse, bind, Except.bind] at hsame ⊢
    rw [h.follow]
    cases hfollow : tree.follow true parsed with
    | error fault => rfl
    | ok place =>
      have hfound := (follow_eq_ok_iff.mp hfollow).2.1
      simp only [hfollow, Except.map, shown] at hsame ⊢
      cases hfind : place.found? with
      | none =>
        rw [h.find?_eq_none.mpr (hfound ▸ hfind)]
      | some entry =>
        simp only [hfind, Except.ok.injEq, Prod.mk.injEq] at hsame
        rw [hsame place.location entry ⟨rfl, rfl⟩]

end Alike

/-- **A path that does not lead to a growing file opens what it opened**, or fails as it
failed. -/
theorem locate_written {tree : Tree} {path : Bytes} {outline : Location}
    (h : ∀ entry, tree.locate path ≠ .ok (outline, entry)) (text : Bytes) :
    (tree.written outline text).locate path = tree.locate path := by
  refine (tree.alike_written outline text).locate path fun location entry hlocate => ?_
  have hne : location ≠ outline := fun heq => h entry (heq ▸ hlocate)
  rw [find?_written_ne hne]
  exact (look_eq_some_iff.mp (locate_eq_ok_iff.mp hlocate)).2

end Tree

end DocHarvest.Files
