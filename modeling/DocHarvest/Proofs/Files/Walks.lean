import DocHarvest.Files.Tree

/-!
# Walks through the File Tree

Where a path leads depends on directories and links only. `Walks` says so as a relation: it
reads a tree through `Tree.way?`, which shows the directories and the links and hides the files,
and it relates the names of a path to the location they lead to. The walk that `Tree.walkLinks`
takes succeeds exactly where `Walks` holds, so trees that differ in files alone are walked
alike, and what happens to a walk when an entry is taken away is read off its derivation.

## Main definitions

* `Tree.way?` — the directory or link at a location, if there is one.
* `Walks` — names lead from one location to another, through at most some number of links.
* `passed` — the locations that a walk looks at.

## Main results

* `Tree.walkLinks_eq_ok_iff` — the walk succeeds exactly where `Walks` holds.
* `Walks.unique` — names lead to one location, however many links may be followed.
* `walks_congr` — a walk depends on the ways at the locations that it looks at.
* `Walks.exists_stopping` — a walk through a final link first comes to the link itself.
* `Walks.through_of_not_link` — without a final link, it makes no difference whether to follow it.
* `Walks.erased` — the walks that remain when a link is gone.
* `Tree.walkLinks_erase` — names that led to an entry find nothing once it is gone.
-/

namespace DocHarvest.Files

/-- Directories and links lead on; files and devices do not. -/
def Entry.isWay : Entry → Bool
  | directory => true
  | link _ => true
  | _ => false

/-- A name that an entry can have, and not one of the two names for directories on the way. -/
def Path.IsEntryName (name : Bytes) : Prop :=
  name ≠ Path.here ∧ name ≠ Path.above ∧ name.length ≤ Path.maxName

/-! ### Entries by location -/

namespace Tree

/-- What was put at a location is found there. -/
theorem lookup_put_self (location : Location) (entry : Entry)
    (entries : List (Location × Entry)) :
    (put location entry entries).lookup location = some entry := by
  induction entries with
  | nil => simp [put]
  | cons head others ih =>
    obtain ⟨l, e⟩ := head
    by_cases h : l = location
    · simp [put, h]
    · have hne : (location == l) = false := beq_eq_false_iff_ne.mpr (Ne.symm h)
      simp [put, h, List.lookup_cons, hne, ih]

/-- Elsewhere, putting an entry changes nothing. -/
theorem lookup_put_ne {location other : Location} (h : other ≠ location) (entry : Entry)
    (entries : List (Location × Entry)) :
    (put location entry entries).lookup other = entries.lookup other := by
  have hne : (other == location) = false := beq_eq_false_iff_ne.mpr h
  induction entries with
  | nil => simp [put, List.lookup_cons, hne]
  | cons head others ih =>
    obtain ⟨l, e⟩ := head
    by_cases hl : l = location
    · simp [put, hl, List.lookup_cons, hne]
    · simp only [put, hl, if_false, List.lookup_cons, ih]

/-- A tree has the entry that was set, except at the root. -/
theorem find?_set_self (tree : Tree) {location : Location} (h : location ≠ []) (entry : Entry) :
    (tree.set location entry).find? location = some entry := by
  simp [find?, set, h, lookup_put_self]

/-- Setting an entry changes nothing elsewhere. -/
theorem find?_set_ne (tree : Tree) {location other : Location} (h : other ≠ location)
    (entry : Entry) : (tree.set location entry).find? other = tree.find? other := by
  simp [find?, set, lookup_put_ne h]

/-- Entries are found without those of another location. -/
theorem lookup_filter_ne {location other : Location} (h : other ≠ location)
    (entries : List (Location × Entry)) :
    (entries.filter fun (l, _) => l ≠ location).lookup other = entries.lookup other := by
  induction entries with
  | nil => rfl
  | cons head others ih =>
    obtain ⟨l, e⟩ := head
    by_cases hl : l = location
    · have hne : (other == l) = false := beq_eq_false_iff_ne.mpr (hl ▸ h)
      rw [List.filter_cons_of_neg (by simp [hl]), ih, List.lookup_cons, hne]
    · rw [List.filter_cons_of_pos (by simp [hl]), List.lookup_cons, List.lookup_cons, ih]

/-- An erased entry is gone. -/
theorem find?_erase_self (tree : Tree) {location : Location} (h : location ≠ []) :
    (tree.erase location).find? location = none := by
  have hlookup : (tree.erase location).entries.lookup location = none := by
    rw [List.lookup_eq_none_iff]
    intro head hmem
    have hkept : head.1 ≠ location := by simpa using (List.mem_filter.mp hmem).2
    exact bne_iff_ne.mpr (Ne.symm hkept)
  simpa [find?, h] using hlookup

/-- Erasing an entry changes nothing elsewhere. -/
theorem find?_erase_ne (tree : Tree) {location other : Location} (h : other ≠ location) :
    (tree.erase location).find? other = tree.find? other := by
  simp only [find?, erase, lookup_filter_ne h]

/-- The directory or link at a location, if there is one. -/
def way? (tree : Tree) (location : Location) : Option Entry :=
  (tree.find? location).filter Entry.isWay

/-- Every directory is a way. -/
theorem way?_eq_directory {tree : Tree} {location : Location} :
    tree.way? location = some .directory ↔ tree.find? location = some .directory := by
  simp only [way?, Option.filter_eq_some_iff, Entry.isWay, and_true]

/-- Every link is a way. -/
theorem way?_eq_link {tree : Tree} {location : Location} {target : Bytes} :
    tree.way? location = some (.link target) ↔ tree.find? location = some (.link target) := by
  simp only [way?, Option.filter_eq_some_iff, Entry.isWay, and_true]

/-- Anything else is no way. -/
theorem way?_eq_none {tree : Tree} {location : Location} :
    tree.way? location = none ↔
      tree.find? location ≠ some .directory ∧
        ∀ target, tree.find? location ≠ some (.link target) := by
  cases h : tree.find? location with
  | none => simp [way?, h]
  | some entry => cases entry <;> simp [way?, h, Entry.isWay]

/-- A location has no way, a directory or a link. -/
theorem way?_cases (tree : Tree) (location : Location) :
    tree.way? location = none ∨ tree.way? location = some .directory ∨
      ∃ target, tree.way? location = some (.link target) := by
  cases h : tree.find? location with
  | none => simp [way?, h]
  | some entry => cases entry <;> simp [way?, h, Entry.isWay]

end Tree

/-! ### The relation -/

/-- Where the target of a link starts from, when the link stands at a location. -/
def linkStart (location : Location) (target : Bytes) : Location :=
  if (Path.split target).fromRoot then [] else location.dropLast

/-- **Names lead from a location to a location**, through at most the given number of links. A
link at the very end is followed when `through` is true. -/
inductive Walks (way? : Location → Option Entry) (through : Bool) :
    Nat → Location → List Bytes → Location → Prop
  | stop {links : Nat} {location : Location} : Walks way? through links location [] location
  | here {links : Nat} {location goal : Location} {rest : List Bytes}
      (inside : way? location = some .directory)
      (onward : Walks way? through links location rest goal) :
      Walks way? through links location (Path.here :: rest) goal
  | above {links : Nat} {location goal : Location} {rest : List Bytes}
      (inside : way? location = some .directory)
      (onward : Walks way? through links location.dropLast rest goal) :
      Walks way? through links location (Path.above :: rest) goal
  | last {links : Nat} {location : Location} {name : Bytes}
      (inside : way? location = some .directory) (isName : Path.IsEntryName name)
      (final : way? (location ++ [name]) = none ∨
        through = false ∧ ∃ target, way? (location ++ [name]) = some (.link target)) :
      Walks way? through links location [name] (location ++ [name])
  | enter {links : Nat} {location goal : Location} {name : Bytes} {rest : List Bytes}
      (inside : way? location = some .directory) (isName : Path.IsEntryName name)
      (found : way? (location ++ [name]) = some .directory)
      (onward : Walks way? through links (location ++ [name]) rest goal) :
      Walks way? through links location (name :: rest) goal
  | link {links : Nat} {location goal : Location} {name target : Bytes} {rest : List Bytes}
      (inside : way? location = some .directory) (isName : Path.IsEntryName name)
      (found : way? (location ++ [name]) = some (.link target))
      (followed : rest ≠ [] ∨ through = true)
      (onward : Walks way? through links (linkStart (location ++ [name]) target)
        ((Path.split target).steps ++ rest) goal) :
      Walks way? through (links + 1) location (name :: rest) goal

/-! ### The steps of the walk -/

namespace Tree

section Steps

variable {tree : Tree} {through : Bool} {links : Nat} {location : Location} {name : Bytes}
  {rest : List Bytes}

/-- Without names, the walk ends where it is. -/
theorem walkLinks_nil : tree.walkLinks through links location [] =
    .ok ⟨location, tree.find? location⟩ := by
  cases links <;> rfl

/-- No name leads on from anything but a directory. -/
theorem walkLinks_outside (h : tree.way? location ≠ some .directory) :
    tree.walkLinks through links location (name :: rest) = .error .notDirectory := by
  have hfind : tree.find? location ≠ some .directory := fun hd => h (way?_eq_directory.mpr hd)
  cases links <;> simp [walkLinks, walk, hfind]

variable (inside : tree.way? location = some .directory)
include inside

/-- The name of the directory itself leads nowhere else. -/
theorem walkLinks_here : tree.walkLinks through links location (Path.here :: rest) =
    tree.walkLinks through links location rest := by
  cases links <;> simp [walkLinks, walk, way?_eq_directory.mp inside]

/-- The name of the directory above leads there. -/
theorem walkLinks_above : tree.walkLinks through links location (Path.above :: rest) =
    tree.walkLinks through links location.dropLast rest := by
  have hne : Path.above ≠ Path.here := by decide
  cases links <;> simp [walkLinks, walk, way?_eq_directory.mp inside, hne]

/-- A name that is too long cannot be looked up. -/
theorem walkLinks_long (hhere : name ≠ Path.here) (habove : name ≠ Path.above)
    (hlong : Path.maxName < name.length) :
    tree.walkLinks through links location (name :: rest) = .error .nameTooLong := by
  cases links <;>
    simp [walkLinks, walk, way?_eq_directory.mp inside, hhere, habove, hlong]

variable (isName : Path.IsEntryName name)
include isName

/-- Where nothing is, names can end but not go on. -/
theorem walkLinks_missing_name (hmissing : tree.find? (location ++ [name]) = none) :
    tree.walkLinks through links location (name :: rest) =
      if rest.isEmpty then .ok ⟨location ++ [name], none⟩ else .error .missing := by
  obtain ⟨hhere, habove, hlength⟩ := isName
  have hshort : ¬ Path.maxName < name.length := Nat.not_lt.mpr hlength
  cases links <;>
    simp [walkLinks, walk, way?_eq_directory.mp inside, hhere, habove, hshort, hmissing]

/-- A name leads into what stands there, unless that is a link. -/
theorem walkLinks_enter {entry : Entry} (hfound : tree.find? (location ++ [name]) = some entry)
    (hlink : ∀ target, entry ≠ .link target) :
    tree.walkLinks through links location (name :: rest) =
      tree.walkLinks through links (location ++ [name]) rest := by
  obtain ⟨hhere, habove, hlength⟩ := isName
  have hshort : ¬ Path.maxName < name.length := Nat.not_lt.mpr hlength
  cases entry with
  | link target => exact absurd rfl (hlink target)
  | directory | file | discard | full =>
    cases links <;>
      simp [walkLinks, walk, way?_eq_directory.mp inside, hhere, habove, hshort, hfound]

/-- Where nothing leads on, names can end. -/
theorem walkLinks_leaf (hleaf : tree.way? (location ++ [name]) = none) :
    tree.walkLinks through links location [name] =
      .ok ⟨location ++ [name], tree.find? (location ++ [name])⟩ := by
  cases hfind : tree.find? (location ++ [name]) with
  | none => simp [walkLinks_missing_name inside isName hfind]
  | some entry =>
    have hlink : ∀ target, entry ≠ .link target := fun target he =>
      (way?_eq_none.mp hleaf).2 target (he ▸ hfind)
    rw [walkLinks_enter inside isName hfind hlink, walkLinks_nil, hfind]

/-- Where nothing leads on, names cannot go on. -/
theorem walkLinks_blocked (hleaf : tree.way? (location ++ [name]) = none) (hrest : rest ≠ []) :
    ∃ fault, tree.walkLinks through links location (name :: rest) = .error fault := by
  cases hfind : tree.find? (location ++ [name]) with
  | none => exact ⟨.missing, by simp [walkLinks_missing_name inside isName hfind, hrest]⟩
  | some entry =>
    have hlink : ∀ target, entry ≠ .link target := fun target he =>
      (way?_eq_none.mp hleaf).2 target (he ▸ hfind)
    have houtside : tree.way? (location ++ [name]) ≠ some .directory := by simp [hleaf]
    obtain ⟨next, others, rfl⟩ := List.exists_cons_of_ne_nil hrest
    refine ⟨.notDirectory, ?_⟩
    rw [walkLinks_enter inside isName hfind hlink, walkLinks_outside houtside]

/-- A link leads to its target, unless it is the end and is not to be followed. -/
theorem walkLinks_link {target : Bytes}
    (hfound : tree.way? (location ++ [name]) = some (.link target)) :
    tree.walkLinks through links location (name :: rest) =
      if rest.isEmpty && !through then .ok ⟨location ++ [name], some (.link target)⟩
      else
        match links with
        | 0 => .error .tooManyLinks
        | fewer + 1 =>
          tree.walkLinks through fewer (linkStart (location ++ [name]) target)
            ((Path.split target).steps ++ rest) := by
  obtain ⟨hhere, habove, hlength⟩ := isName
  have hshort : ¬ Path.maxName < name.length := Nat.not_lt.mpr hlength
  cases links <;>
    simp [walkLinks, walk, way?_eq_directory.mp inside, hhere, habove, hshort,
      way?_eq_link.mp hfound, linkStart]

end Steps

/-! ### The walk and the relation -/

/-- The walk goes where the relation leads. -/
theorem walkLinks_of_walks {tree : Tree} {through : Bool} {links : Nat}
    {location goal : Location} {names : List Bytes}
    (h : Walks tree.way? through links location names goal) :
    tree.walkLinks through links location names = .ok ⟨goal, tree.find? goal⟩ := by
  induction h with
  | stop => exact walkLinks_nil
  | here inside _ ih => rw [walkLinks_here inside, ih]
  | above inside _ ih => rw [walkLinks_above inside, ih]
  | last inside isName final =>
    rcases final with hleaf | ⟨rfl, target, hlink⟩
    · exact walkLinks_leaf inside isName hleaf
    · rw [walkLinks_link inside isName hlink, way?_eq_link.mp hlink]
      rfl
  | enter inside isName found _ ih =>
    rw [walkLinks_enter inside isName (way?_eq_directory.mp found) (by simp), ih]
  | @link links location goal name target rest inside isName found followed _ ih =>
    have hfollow : (rest.isEmpty && !through) = false := by
      rcases followed with h | h <;> simp [h]
    rw [walkLinks_link inside isName found, hfollow]
    exact ih

/-- The relation leads where the walk goes. The outer induction is on the links that may be
followed, the inner one on the names. -/
theorem walks_of_walkLinks {tree : Tree} {through : Bool} {links : Nat} {location : Location}
    {names : List Bytes} {place : Place}
    (h : tree.walkLinks through links location names = .ok place) :
    Walks tree.way? through links location names place.location ∧
      place.found? = tree.find? place.location := by
  induction links using Nat.strongRecOn generalizing location names with
  | ind links ihLinks =>
  induction names generalizing location with
  | nil =>
    rw [walkLinks_nil] at h
    obtain rfl := Except.ok.inj h
    exact ⟨.stop, rfl⟩
  | cons name rest ihNames =>
    by_cases inside : tree.way? location = some .directory
    case neg => simp [walkLinks_outside inside] at h
    by_cases hhere : name = Path.here
    · rw [hhere, walkLinks_here inside] at h
      obtain ⟨hwalks, hfound⟩ := ihNames h
      exact ⟨hhere ▸ .here inside hwalks, hfound⟩
    by_cases habove : name = Path.above
    · rw [habove, walkLinks_above inside] at h
      obtain ⟨hwalks, hfound⟩ := ihNames h
      exact ⟨habove ▸ .above inside hwalks, hfound⟩
    by_cases hlong : Path.maxName < name.length
    · simp [walkLinks_long inside hhere habove hlong] at h
    have isName : Path.IsEntryName name := ⟨hhere, habove, Nat.not_lt.mp hlong⟩
    rcases tree.way?_cases (location ++ [name]) with hleaf | hdir | ⟨target, hlink⟩
    · cases rest with
      | nil =>
        rw [walkLinks_leaf inside isName hleaf] at h
        obtain rfl := Except.ok.inj h
        exact ⟨.last inside isName (.inl hleaf), rfl⟩
      | cons next others =>
        obtain ⟨fault, hfault⟩ :=
          walkLinks_blocked inside isName hleaf (List.cons_ne_nil next others)
        rw [hfault] at h
        cases h
    · rw [walkLinks_enter inside isName (way?_eq_directory.mp hdir) (by simp)] at h
      obtain ⟨hwalks, hfound⟩ := ihNames h
      exact ⟨.enter inside isName hdir hwalks, hfound⟩
    · rw [walkLinks_link inside isName hlink] at h
      cases hend : rest.isEmpty && !through with
      | true =>
        obtain ⟨rfl, rfl⟩ : rest = [] ∧ through = false := by simpa using hend
        obtain rfl := Except.ok.inj h
        exact ⟨.last inside isName (.inr ⟨rfl, target, hlink⟩), (way?_eq_link.mp hlink).symm⟩
      | false =>
        have hfollowed : rest ≠ [] ∨ through = true := by
          simpa [Classical.or_iff_not_imp_left] using hend
        rw [hend] at h
        cases links with
        | zero => cases h
        | succ fewer =>
          obtain ⟨hwalks, hfound⟩ := ihLinks fewer (Nat.lt_succ_self fewer) h
          exact ⟨.link inside isName hlink hfollowed hwalks, hfound⟩

/-- **The walk succeeds exactly where `Walks` holds**, and shows what is at the goal. -/
theorem walkLinks_eq_ok_iff {tree : Tree} {through : Bool} {links : Nat} {location : Location}
    {names : List Bytes} {place : Place} :
    tree.walkLinks through links location names = .ok place ↔
      Walks tree.way? through links location names place.location ∧
        place.found? = tree.find? place.location := by
  refine ⟨walks_of_walkLinks, fun ⟨hwalks, hfound⟩ => ?_⟩
  rw [walkLinks_of_walks hwalks, ← hfound]

end Tree

/-! ### First steps

What the first name of a walk is and what stands there decide how the walk starts. -/

namespace Walks

section First

variable {way? : Location → Option Entry} {through : Bool} {links : Nat}
  {location goal : Location} {name : Bytes} {rest : List Bytes}

/-- A walk with a name starts in a directory. -/
theorem inside_of_cons (h : Walks way? through links location (name :: rest) goal) :
    way? location = some .directory := by
  cases h <;> assumption

/-- After the name of the directory itself the walk goes on from there. -/
theorem of_here (h : Walks way? through links location (Path.here :: rest) goal) :
    Walks way? through links location rest goal := by
  cases h with
  | here _ onward => exact onward
  | last _ isName | enter _ isName | link _ isName => exact absurd rfl isName.1

/-- After the name of the directory above it goes on from that one. -/
theorem of_above (h : Walks way? through links location (Path.above :: rest) goal) :
    Walks way? through links location.dropLast rest goal := by
  cases h with
  | above _ onward => exact onward
  | last _ isName | enter _ isName | link _ isName => exact absurd rfl isName.2.1

variable (isName : Path.IsEntryName name)
  (h : Walks way? through links location (name :: rest) goal)
include isName h

/-- Where nothing leads on, a walk ends. -/
theorem of_leaf (hleaf : way? (location ++ [name]) = none) :
    rest = [] ∧ goal = location ++ [name] := by
  cases h with
  | here => exact absurd rfl isName.1
  | above => exact absurd rfl isName.2.1
  | last => exact ⟨rfl, rfl⟩
  | enter _ _ found | link _ _ found => simp [hleaf] at found

/-- A walk goes on through a directory. -/
theorem of_directory (hdir : way? (location ++ [name]) = some .directory) :
    Walks way? through links (location ++ [name]) rest goal := by
  cases h with
  | here => exact absurd rfl isName.1
  | above => exact absurd rfl isName.2.1
  | last _ _ final => simp [hdir] at final
  | enter _ _ _ onward => exact onward
  | link _ _ found => simp [hdir] at found

/-- A walk goes on through the target of a link that is followed. -/
theorem of_link {target : Bytes} (hlink : way? (location ++ [name]) = some (.link target))
    (hfollowed : rest ≠ [] ∨ through = true) :
    ∃ fewer, Walks way? through fewer (linkStart (location ++ [name]) target)
      ((Path.split target).steps ++ rest) goal := by
  cases h with
  | here => exact absurd rfl isName.1
  | above => exact absurd rfl isName.2.1
  | last _ _ final => simp_all
  | enter _ _ found => simp [hlink] at found
  | link _ _ found _ onward =>
    obtain rfl := Entry.link.inj (Option.some.inj (hlink.symm.trans found))
    exact ⟨_, onward⟩

end First

/-! ### Walks that share their names -/

variable {way? : Location → Option Entry} {through : Bool} {links : Nat}
  {location goal : Location} {names : List Bytes}

/-- Names lead to one location, however many links may be followed. -/
theorem unique {more : Nat} {other : Location}
    (h : Walks way? through links location names goal)
    (h' : Walks way? through more location names other) : goal = other := by
  induction h generalizing more with
  | stop => cases h'; rfl
  | here _ _ ih => exact ih h'.of_here
  | above _ _ ih => exact ih h'.of_above
  | last _ isName final =>
    rcases final with hleaf | ⟨rfl, target, hlink⟩
    · exact (h'.of_leaf isName hleaf).2.symm
    · cases h' with
      | here => exact absurd rfl isName.1
      | above => exact absurd rfl isName.2.1
      | last => rfl
      | enter _ _ found => simp [hlink] at found
      | link _ _ _ followed => simp at followed
  | enter _ isName found _ ih => exact ih (h'.of_directory isName found)
  | link _ isName found followed _ ih =>
    obtain ⟨fewer, onward⟩ := h'.of_link isName found followed
    exact ih onward

/-- Names that go on after others go on from the directory that these lead to. -/
theorem directory_of_append {more : Nat} {others : List Bytes} {middle : Location}
    (h : Walks way? true links location names middle) (hothers : others ≠ [])
    (h' : Walks way? through more location (names ++ others) goal) :
    way? middle = some .directory := by
  induction h generalizing more with
  | stop =>
    obtain ⟨next, rest, rfl⟩ := List.exists_cons_of_ne_nil hothers
    exact h'.inside_of_cons
  | here _ _ ih => exact ih h'.of_here
  | above _ _ ih => exact ih h'.of_above
  | last _ isName final =>
    rcases final with hleaf | ⟨hfalse, -⟩
    · exact absurd (h'.of_leaf isName hleaf).1 hothers
    · cases hfalse
  | enter _ isName found _ ih => exact ih (h'.of_directory isName found)
  | link _ isName found _ _ ih =>
    rw [List.cons_append] at h'
    obtain ⟨fewer, onward⟩ := h'.of_link isName found (.inl (by simp [hothers]))
    rw [← List.append_assoc] at onward
    exact ih onward

/-- Names that end with the name of the directory itself lead to a directory. -/
theorem directory_of_here (h : Walks way? through links location (names ++ [Path.here]) goal) :
    way? goal = some .directory := by
  generalize hall : names ++ [Path.here] = all at h
  induction h generalizing names with
  | stop => simp at hall
  | here inside onward ih =>
    cases names with
    | nil =>
      obtain rfl := (List.cons.inj hall).2
      cases onward
      exact inside
    | cons name names => exact ih (List.cons.inj hall).2
  | above _ _ ih =>
    cases names with
    | nil => exact absurd (List.cons.inj hall).1 (by decide)
    | cons name names => exact ih (List.cons.inj hall).2
  | last _ isName =>
    cases names with
    | nil => exact absurd (List.cons.inj hall).1.symm isName.1
    | cons name names => simp at hall
  | enter _ isName _ _ ih =>
    cases names with
    | nil => exact absurd (List.cons.inj hall).1.symm isName.1
    | cons name names => exact ih (List.cons.inj hall).2
  | @link _ _ _ _ target rest _ isName _ _ _ ih =>
    cases names with
    | nil => exact absurd (List.cons.inj hall).1.symm isName.1
    | cons name names =>
      have hrest : names ++ [Path.here] = rest := (List.cons.inj hall).2
      refine @ih ((Path.split target).steps ++ names) ?_
      rw [List.append_assoc, hrest]

/-! ### Links at the end -/

/-- A walk that goes through a final link first comes to the link itself, and where it goes from
there depends on the link alone. -/
theorem exists_stopping (h : Walks way? true links location names goal) :
    ∃ stop, Walks way? false links location names stop ∧
      (stop = goal ∨ ∃ target fewer, way? stop = some (.link target) ∧
        Walks way? true fewer (linkStart stop target) (Path.split target).steps goal) := by
  induction h with
  | stop => exact ⟨_, .stop, .inl rfl⟩
  | here inside _ ih =>
    obtain ⟨stop, hstop, hgoal⟩ := ih
    exact ⟨stop, .here inside hstop, hgoal⟩
  | above inside _ ih =>
    obtain ⟨stop, hstop, hgoal⟩ := ih
    exact ⟨stop, .above inside hstop, hgoal⟩
  | last inside isName final =>
    rcases final with hleaf | ⟨hfalse, -⟩
    · exact ⟨_, .last inside isName (.inl hleaf), .inl rfl⟩
    · cases hfalse
  | enter inside isName found _ ih =>
    obtain ⟨stop, hstop, hgoal⟩ := ih
    exact ⟨stop, .enter inside isName found hstop, hgoal⟩
  | @link fewer location goal name target rest inside isName found followed onward ih =>
    by_cases hrest : rest = []
    · subst hrest
      rw [List.append_nil] at onward
      exact ⟨location ++ [name], .last inside isName (.inr ⟨rfl, target, found⟩),
        .inr ⟨target, fewer, found, onward⟩⟩
    · obtain ⟨stop, hstop, hgoal⟩ := ih
      exact ⟨stop, .link inside isName found (.inl hrest) hstop, hgoal⟩

/-- A walk that stops at something other than a link would not have gone on. -/
theorem through_of_not_link (h : Walks way? false links location names goal)
    (hgoal : ∀ target, way? goal ≠ some (.link target)) :
    Walks way? true links location names goal := by
  induction h with
  | stop => exact .stop
  | here inside _ ih => exact .here inside (ih hgoal)
  | above inside _ ih => exact .above inside (ih hgoal)
  | last inside isName final =>
    rcases final with hleaf | ⟨-, target, hlink⟩
    · exact .last inside isName (.inl hleaf)
    · exact absurd hlink (hgoal target)
  | enter inside isName found _ ih => exact .enter inside isName found (ih hgoal)
  | link inside isName found _ _ ih => exact .link inside isName found (.inr rfl) (ih hgoal)

/-! ### Walks without one of the ways -/

section Erased

variable {way?' : Location → Option Entry} {gone : Location}
  (hothers : ∀ l, l ≠ gone → way?' l = way? l)
include hothers

/-- Without an entry, names lead where they led, or to the empty place. -/
theorem of_erased (hgone : way?' gone = none)
    (h : Walks way?' through links location names goal) :
    goal = gone ∨ Walks way? through links location names goal := by
  have hsame : ∀ {l entry}, way?' l = some entry → way? l = some entry := by
    intro l entry hl
    have hne : l ≠ gone := fun h => by simp [h, hgone] at hl
    rw [← hothers l hne, hl]
  induction h with
  | stop => exact .inr .stop
  | here inside _ ih => exact ih.imp_right (.here (hsame inside))
  | above inside _ ih => exact ih.imp_right (.above (hsame inside))
  | @last links location name inside isName final =>
    by_cases hname : location ++ [name] = gone
    · exact .inl hname
    · exact .inr (.last (hsame inside) isName (hothers _ hname ▸ final))
  | enter inside isName found _ ih =>
    exact ih.imp_right (.enter (hsame inside) isName (hsame found))
  | link inside isName found followed _ ih =>
    exact ih.imp_right (.link (hsame inside) isName (hsame found) followed)

/-- Without a link, names still lead where they led, except to the link and to where it leads:
a walk that follows the link ends there, because what it leads to is no directory. -/
theorem erased {target : Bytes} {fewer : Nat} {behind : Location}
    (hlink : way? gone = some (.link target))
    (hbehind : Walks way? true fewer (linkStart gone target) (Path.split target).steps behind)
    (hleaf : way? behind ≠ some .directory)
    (h : Walks way? through links location names goal) (hgone : goal ≠ gone)
    (hgoal : goal ≠ behind) : Walks way?' through links location names goal := by
  have hsame : ∀ {l}, way? l = some .directory → way?' l = some .directory := by
    intro l hl
    have hne : l ≠ gone := fun h => by simp [h, hlink] at hl
    rw [hothers l hne, hl]
  induction h with
  | stop => exact .stop
  | here inside _ ih => exact .here (hsame inside) (ih hgone hgoal)
  | above inside _ ih => exact .above (hsame inside) (ih hgone hgoal)
  | last inside isName final =>
    exact .last (hsame inside) isName ((hothers _ hgone).symm ▸ final)
  | enter inside isName found _ ih =>
    exact .enter (hsame inside) isName (hsame found) (ih hgone hgoal)
  | @link links location goal name target' rest inside isName found followed onward ih =>
    by_cases hname : location ++ [name] = gone
    · rw [hname, hlink] at found
      obtain rfl := Entry.link.inj (Option.some.inj found)
      rw [hname] at onward
      by_cases hrest : rest = []
      · have hthrough : through = true := followed.resolve_left (not_not_intro hrest)
        subst hrest hthrough
        rw [List.append_nil] at onward
        exact absurd (onward.unique hbehind) hgoal
      · exact absurd (hbehind.directory_of_append hrest onward) hleaf
    · exact .link (hsame inside) isName ((hothers _ hname).trans found) followed
        (ih hgone hgoal)

/-- Without a link, the names that led to it lead to the empty place, since they cannot have
followed it on their way: what it leads to is no directory. -/
theorem to_erased {target : Bytes} {fewer : Nat} {behind : Location} (hempty : way?' gone = none)
    (hlink : way? gone = some (.link target))
    (hbehind : Walks way? true fewer (linkStart gone target) (Path.split target).steps behind)
    (hleaf : way? behind ≠ some .directory)
    (h : Walks way? false links location names goal) (hgoal : goal = gone) :
    Walks way?' through links location names goal := by
  have hsame : ∀ {l}, way? l = some .directory → way?' l = some .directory := by
    intro l hl
    have hne : l ≠ gone := fun h => by simp [h, hlink] at hl
    rw [hothers l hne, hl]
  induction h with
  | stop => exact .stop
  | here inside _ ih => exact .here (hsame inside) (ih hgoal)
  | above inside _ ih => exact .above (hsame inside) (ih hgoal)
  | last inside isName => exact .last (hsame inside) isName (.inl (hgoal ▸ hempty))
  | enter inside isName found _ ih =>
    exact .enter (hsame inside) isName (hsame found) (ih hgoal)
  | @link links location goal name target' rest inside isName found followed onward ih =>
    have hrest : rest ≠ [] := followed.resolve_right (by simp)
    by_cases hname : location ++ [name] = gone
    · rw [hname, hlink] at found
      obtain rfl := Entry.link.inj (Option.some.inj found)
      rw [hname] at onward
      exact absurd (hbehind.directory_of_append hrest onward) hleaf
    · exact .link (hsame inside) isName ((hothers _ hname).trans found) (.inl hrest) (ih hgoal)

end Erased

end Walks

/-! ### What a walk looks at -/

/-- The locations that a walk along names looks at, given those that it looks at behind a link. -/
def passedBy (way? : Location → Option Entry)
    (onLink : Location → Bytes → List Bytes → List Location) :
    Location → List Bytes → List Location
  | location, [] => [location]
  | location, name :: rest =>
    location ::
      if way? location ≠ some .directory then []
      else if name = Path.here then passedBy way? onLink location rest
      else if name = Path.above then passedBy way? onLink location.dropLast rest
      else
        match way? (location ++ [name]) with
        | some .directory => passedBy way? onLink (location ++ [name]) rest
        | some (.link target) => (location ++ [name]) :: onLink (location ++ [name]) target rest
        | _ => [location ++ [name]]

/-- **The locations that a walk looks at**, through at most the given number of links. -/
def passed (way? : Location → Option Entry) : Nat → Location → List Bytes → List Location
  | 0 => passedBy way? fun _ _ _ => []
  | links + 1 => passedBy way? fun location target rest =>
      passed way? links (linkStart location target) ((Path.split target).steps ++ rest)

section Passed

variable {way? way?' : Location → Option Entry} {through : Bool} {links : Nat}
  {location goal : Location} {name : Bytes} {rest names : List Bytes}

/-- A walk looks at where it starts. -/
theorem self_mem_passed : location ∈ passed way? links location names := by
  cases links <;> cases names <;> simp [passed, passedBy]

/-- A walk along names looks at the same locations when the ways there are the same, and so it is
behind links. -/
theorem passedBy_congr {onLink onLink' : Location → Bytes → List Bytes → List Location}
    (hlinks : ∀ l target rest, (∀ m ∈ onLink l target rest, way?' m = way? m) →
      onLink' l target rest = onLink l target rest)
    (h : ∀ l ∈ passedBy way? onLink location names, way?' l = way? l) :
    passedBy way?' onLink' location names = passedBy way? onLink location names := by
  induction names generalizing location with
  | nil => rfl
  | cons name rest ih =>
    unfold passedBy at h ⊢
    rw [h location List.mem_cons_self]
    have hmore := fun l hl => h l (List.mem_cons_of_mem location hl)
    congr 1
    split
    · rfl
    next hinside =>
    rw [if_neg hinside] at hmore
    split
    next hhere =>
      rw [if_pos hhere] at hmore
      exact ih hmore
    next hhere =>
    rw [if_neg hhere] at hmore
    split
    next habove =>
      rw [if_pos habove] at hmore
      exact ih hmore
    next habove =>
    rw [if_neg habove] at hmore
    have hname : way?' (location ++ [name]) = way? (location ++ [name]) := by
      refine hmore _ ?_
      split
      · cases rest <;> simp [passedBy]
      · exact List.mem_cons_self
      · exact List.mem_cons_self
    rw [hname]
    split
    next hdirectory =>
      simp only [hdirectory] at hmore
      exact ih hmore
    next target hlink =>
      simp only [hlink] at hmore
      rw [hlinks _ _ _ fun m hm => hmore m (List.mem_cons_of_mem _ hm)]
    · rfl

/-- **A walk looks at the same locations** when the ways there are the same. -/
theorem passed_congr (h : ∀ l ∈ passed way? links location names, way?' l = way? l) :
    passed way?' links location names = passed way? links location names := by
  induction links generalizing location names with
  | zero => exact passedBy_congr (fun _ _ _ _ => rfl) h
  | succ links ih => exact passedBy_congr (fun _ _ _ hlink => ih hlink) h

section Erased

variable {gone : Location} (hothers : ∀ l, l ≠ gone → way?' l = way? l) (hgone : way?' gone = none)
include hothers hgone

/-- Without one of the ways, a walk along names looks at nothing else, if so it is behind links. -/
theorem passedBy_erased {onLink onLink' : Location → Bytes → List Bytes → List Location}
    (hlinks : ∀ l target rest, onLink' l target rest ⊆ onLink l target rest) :
    passedBy way?' onLink' location names ⊆ passedBy way? onLink location names := by
  induction names generalizing location with
  | nil => exact List.Subset.refl _
  | cons name rest ih =>
    unfold passedBy
    by_cases hlocation : location = gone
    · subst hlocation
      simp [hgone]
    rw [hothers location hlocation]
    refine List.cons_subset_cons location ?_
    split
    · exact List.Subset.refl _
    split
    · exact ih
    split
    · exact ih
    by_cases hname : location ++ [name] = gone
    · rw [hname, hgone]
      refine List.cons_subset.mpr ⟨?_, List.nil_subset _⟩
      split
      · cases rest <;> simp [passedBy]
      · exact List.mem_cons_self
      · exact List.mem_cons_self
    · rw [hothers _ hname]
      split
      · exact ih
      · exact List.cons_subset_cons _ (hlinks _ _ _)
      · exact List.Subset.refl _

/-- **Without one of the ways, a walk looks at nothing else.** -/
theorem passed_erased :
    passed way?' links location names ⊆ passed way? links location names := by
  induction links generalizing location names with
  | zero => exact passedBy_erased hothers hgone fun _ _ _ => List.Subset.refl _
  | succ links ih => exact passedBy_erased hothers hgone fun _ _ _ => ih

end Erased

section Steps

variable (inside : way? location = some .directory)
include inside

/-- Behind the name of the directory itself, a walk looks at what it looks at from there. -/
theorem passed_here : passed way? links location (Path.here :: rest) =
    location :: passed way? links location rest := by
  cases links <;> simp [passed, passedBy, inside]

/-- Behind the name of the directory above, it looks at what it looks at from that one. -/
theorem passed_above : passed way? links location (Path.above :: rest) =
    location :: passed way? links location.dropLast rest := by
  have hne : Path.above ≠ Path.here := by decide
  cases links <;> simp [passed, passedBy, inside, hne]

variable (isName : Path.IsEntryName name)
include isName

/-- Behind a directory, it looks at what it looks at from there. -/
theorem passed_enter (hfound : way? (location ++ [name]) = some .directory) :
    passed way? links location (name :: rest) =
      location :: passed way? links (location ++ [name]) rest := by
  obtain ⟨hhere, habove, -⟩ := isName
  cases links <;> simp [passed, passedBy, inside, hhere, habove, hfound]

/-- Behind a link, it looks at what it looks at on the way to the target. -/
theorem passed_link {target : Bytes} (hfound : way? (location ++ [name]) = some (.link target)) :
    passed way? (links + 1) location (name :: rest) =
      location :: (location ++ [name]) ::
        passed way? links (linkStart (location ++ [name]) target)
          ((Path.split target).steps ++ rest) := by
  obtain ⟨hhere, habove, -⟩ := isName
  simp [passed, passedBy, inside, hhere, habove, hfound]

/-- A walk looks at what its first name names. -/
theorem name_mem_passed : location ++ [name] ∈ passed way? links location (name :: rest) := by
  cases hway : way? (location ++ [name]) with
  | none =>
    obtain ⟨hhere, habove, -⟩ := isName
    cases links <;> simp [passed, passedBy, inside, hhere, habove, hway]
  | some entry =>
    obtain ⟨hhere, habove, -⟩ := isName
    cases entry <;> cases links <;> cases rest <;>
      simp [passed, passedBy, inside, hhere, habove, hway]

end Steps

/-- Where a walk leads is among the locations that it looks at. -/
theorem Walks.mem_passed (h : Walks way? through links location names goal) :
    goal ∈ passed way? links location names := by
  induction h with
  | stop => exact self_mem_passed
  | here inside _ ih =>
    rw [passed_here inside]
    exact List.mem_cons_of_mem _ ih
  | above inside _ ih =>
    rw [passed_above inside]
    exact List.mem_cons_of_mem _ ih
  | last inside isName => exact name_mem_passed inside isName
  | enter inside isName found _ ih =>
    rw [passed_enter inside isName found]
    exact List.mem_cons_of_mem _ ih
  | link inside isName found _ _ ih =>
    rw [passed_link inside isName found]
    exact List.mem_cons_of_mem _ (List.mem_cons_of_mem _ ih)

/-- A walk leads where it led when the ways are the same at the locations that it looks at. -/
theorem Walks.of_passed (h : Walks way? through links location names goal)
    (hsame : ∀ l ∈ passed way? links location names, way?' l = way? l) :
    Walks way?' through links location names goal := by
  induction h with
  | stop => exact .stop
  | here inside _ ih =>
    rw [passed_here inside, List.forall_mem_cons] at hsame
    exact .here (hsame.1.trans inside) (ih hsame.2)
  | above inside _ ih =>
    rw [passed_above inside, List.forall_mem_cons] at hsame
    exact .above (hsame.1.trans inside) (ih hsame.2)
  | last inside isName final =>
    have hstart := hsame _ self_mem_passed
    have hname := hsame _ (name_mem_passed inside isName)
    exact .last (hstart.trans inside) isName (hname.symm ▸ final)
  | enter inside isName found _ ih =>
    have hname := hsame _ (name_mem_passed inside isName)
    rw [passed_enter inside isName found, List.forall_mem_cons] at hsame
    exact .enter (hsame.1.trans inside) isName (hname.trans found) (ih hsame.2)
  | link inside isName found followed _ ih =>
    rw [passed_link inside isName found, List.forall_mem_cons, List.forall_mem_cons] at hsame
    exact .link (hsame.1.trans inside) isName (hsame.2.1.trans found) followed (ih hsame.2.2)

/-- **A walk depends on the ways at the locations that it looks at**, and on nothing else. -/
theorem walks_congr (hsame : ∀ l ∈ passed way? links location names, way?' l = way? l) :
    Walks way?' through links location names goal ↔
      Walks way? through links location names goal := by
  refine ⟨fun h => h.of_passed fun l hl => ?_, fun h => h.of_passed hsame⟩
  rw [passed_congr hsame] at hl
  exact (hsame l hl).symm

end Passed

/-! ### The tree without an entry -/

namespace Tree

/-- Erasing an entry leaves the other ways. -/
theorem way?_erase_ne (tree : Tree) {gone location : Location} (h : location ≠ gone) :
    (tree.erase gone).way? location = tree.way? location := by
  simp only [way?, find?_erase_ne tree h]

/-- An erased entry is no way. -/
theorem way?_erase_self (tree : Tree) {gone : Location} (h : gone ≠ []) :
    (tree.erase gone).way? gone = none := by
  simp [way?, find?_erase_self tree h]

/-- Only the root is at the empty location. -/
theorem ne_nil_of_find? {tree : Tree} {location : Location}
    (h : tree.find? location ≠ some .directory) : location ≠ [] := by
  rintro rfl
  exact h rfl

/-- **Names that led to an entry find nothing once it is gone**, whether or not a link at their
end is to be followed. -/
theorem walkLinks_erase {tree : Tree} {through : Bool} {links : Nat} {location gone : Location}
    {names : List Bytes} (hgone : tree.find? gone ≠ some .directory)
    (h : Walks tree.way? false links location names gone) :
    (tree.erase gone).walkLinks through links location names = .ok ⟨gone, none⟩ ∨
      (tree.erase gone).walkLinks through links location names = .error .missing := by
  have hnone := tree.find?_erase_self (ne_nil_of_find? hgone)
  have hsame : ∀ {l}, tree.way? l = some .directory →
      (tree.erase gone).way? l = some .directory := by
    intro l hl
    have hne : l ≠ gone := fun h => hgone (way?_eq_directory.mp (h ▸ hl))
    rw [way?_erase_ne tree hne, hl]
  induction h with
  | stop => exact .inl (by rw [walkLinks_nil, hnone])
  | here inside _ ih =>
    rw [walkLinks_here (hsame inside)]
    exact ih hgone hnone hsame
  | above inside _ ih =>
    rw [walkLinks_above (hsame inside)]
    exact ih hgone hnone hsame
  | last inside isName =>
    exact .inl (by rw [walkLinks_missing_name (hsame inside) isName hnone]; rfl)
  | enter inside isName found _ ih =>
    rw [walkLinks_enter (hsame inside) isName (way?_eq_directory.mp (hsame found)) (by simp)]
    exact ih hgone hnone hsame
  | @link links location gone name target rest inside isName found followed _ ih =>
    have hrest : rest ≠ [] := followed.resolve_right (by simp)
    by_cases hname : location ++ [name] = gone
    · subst hname
      exact .inr (by simp [walkLinks_missing_name (hsame inside) isName hnone, hrest])
    · rw [walkLinks_link (hsame inside) isName ((way?_erase_ne tree hname).trans found)]
      simpa [hrest] using ih hgone hnone hsame

end Tree

end DocHarvest.Files
