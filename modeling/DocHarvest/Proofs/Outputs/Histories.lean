import DocHarvest.Proofs.Outputs.Progress

/-!
# Histories of the Outputs

Open outputs can be added to, finished and closed in any order and as often as one likes. The two
outputs have lives of their own. The outline lives until the outputs are first finished or closed;
it has the texts that were added until then, also those that the catalog refused, and nothing that
comes later reaches it. The catalog collects every string that it accepts, also after it was saved,
and its file is written anew each time the outputs are finished.

That the file of the catalog holds what was saved, and the outline what was added, is said for files:
a device in the place of one of them takes what is written without keeping it.

## Main definitions

* `Outputs.Deed`, `Outputs.performAll` — what can be done with open outputs, and doing it in order.
* `Outputs.Follows` — what has become of the outputs, step by step.
* `Outputs.Account` — what a history leaves behind.

## Main results

* `Outputs.Follows.perform` — one more deed.
* `Outputs.Follows.performAll` — a whole history.
* `Outputs.performAll_account` — what can be said of every history.
-/

namespace DocHarvest

open Files (Tree Location Path)

namespace Files.Tree

variable {tree tree' : Tree} {path : Bytes}

/-- A change elsewhere does not reach what a path shows, whether links are followed or not: a link
is never among the files that are changed. -/
theorem SameBut.look_elsewhere {places : List Location} (h : SameBut places tree tree')
    (hfile : Path.NamesFile path) (helsewhere : ∀ place ∈ places, tree.leads true path ≠ some place)
    (through : Bool) : tree'.look through path = tree.look through path := by
  rw [look, look, h.leads_eq hfile]
  cases hleads : tree.leads through path with
  | none => rfl
  | some location =>
    suffices hfind : tree'.find? location = tree.find? location by
      simp only [Option.bind_some, hfind]
    by_cases hlink : ∃ target, tree.way? location = some (.link target)
    · obtain ⟨target, hlink⟩ := hlink
      rw [way?_eq_link.mp hlink, ← way?_eq_link, h.way?, hlink]
    · have hthrough : tree.leads true path = some location := by
        cases through with
        | true => exact hleads
        | false => exact leads_true_of_not_link hfile hleads (not_exists.mp hlink)
      exact h.find? location fun hmem => helsewhere location hmem hthrough

/-- A path keeps what is written to it when it shows a file or a directory, or nothing. -/
theorem keepsWrites_iff : tree.KeepsWrites path ↔
    ∀ location entry, tree.look true path = some (location, entry) → entry.isStored = true := by
  unfold KeepsWrites
  cases tree.look true path with
  | none => simp
  | some shown =>
    constructor
    · rintro hstored location entry ⟨⟩
      exact hstored
    · exact fun h => h shown.1 shown.2 rfl

/-- Where nothing is lost, saving a file leaves a place where nothing is lost. -/
theorem keepsWrites_save (hfile : Path.NamesFile path) (hkeeps : tree.KeepsWrites path)
    (text : Bytes) : (tree.save path text).2.KeepsWrites path := by
  rcases hsave : tree.save path text with ⟨result, saved⟩
  cases result with
  | ok done =>
    obtain ⟨location, executable, hleads, hfind, hsame⟩ := save_ok hkeeps hsave
    refine keepsWrites_iff.mpr fun reached entry hlook => ?_
    obtain ⟨hled, hfound⟩ := look_eq_some_iff.mp hlook
    rw [hsame.leads_eq hfile, hleads] at hled
    obtain rfl := Option.some.inj hled
    obtain rfl := Option.some.inj (hfind.symm.trans hfound)
    rfl
  | error fault =>
    unfold save at hsave
    cases hcreate : tree.create path with
    | error fault =>
      simp only [hcreate, Prod.mk.injEq] at hsave
      rw [← hsave.2]
      exact hkeeps
    | ok opened =>
      obtain ⟨location, opened⟩ := opened
      obtain ⟨-, hleaf, executable, rfl⟩ := create_ok hkeeps hcreate
      simp [hcreate, append_file (find?_set_file hleaf [] executable)] at hsave

end Files.Tree

namespace Outputs

/-! ### Deeds -/

/-- What can be done with open outputs. -/
inductive Deed
  | add (d : DocString)
  | finish
  | close
  deriving DecidableEq, Repr

/-- The string that a deed adds. -/
def Deed.added? : Deed → Option DocString
  | add d => some d
  | _ => none

/-- Does one thing with open outputs. -/
def perform (deed : Deed) (outputs : Outputs) (tree : Tree) :
    Except OutputError Unit × Outputs × Tree :=
  match deed with
  | .add d => outputs.add d tree
  | .finish => outputs.finish tree
  | .close => (.ok (), outputs.close, tree)

/-- Does several things with open outputs, whether or not one of them fails: the result of each,
and the outputs and the files in the end. -/
def performAll : List Deed → Outputs → Tree →
    List (Except OutputError Unit) × Outputs × Tree
  | [], outputs, tree => ([], outputs, tree)
  | deed :: others, outputs, tree =>
    let (result, next, tree') := perform deed outputs tree
    let (results, final, tree'') := performAll others next tree'
    (result :: results, final, tree'')

/-- The strings that were added, at any time. -/
def added (deeds : List Deed) : List DocString :=
  deeds.filterMap Deed.added?

/-- The strings among them that are UTF-8. -/
def accepted (deeds : List Deed) : List DocString :=
  (added deeds).filter fun d => Utf8.IsText d.text

/-- Nothing but adding was done: the outline is still open. -/
def areAdds (deeds : List Deed) : Bool :=
  deeds.all fun deed => deed.added?.isSome

/-- The texts that were added before the outputs were first finished or closed. -/
def outlined : List Deed → Bytes
  | .add d :: others => d.text ++ outlined others
  | _ => []

/-- Strings are added by one deed after another. -/
theorem added_append (before after : List Deed) :
    added (before ++ after) = added before ++ added after :=
  List.filterMap_append

/-- A deed adds to the outline as long as only strings were added before it. -/
theorem outlined_append (deeds : List Deed) (deed : Deed) : outlined (deeds ++ [deed]) =
    outlined deeds ++ if areAdds deeds then (added [deed]).flatMap DocString.text else [] := by
  induction deeds with
  | nil => cases deed <;> simp [outlined, areAdds, added, Deed.added?]
  | cons earlier others ih =>
    cases earlier with
    | add d =>
      have hareAdds : areAdds (.add d :: others) = areAdds others := rfl
      rw [List.cons_append, outlined, outlined, ih, hareAdds, List.append_assoc]
    | finish | close => rfl

/-! ### One deed -/

/-- What adding a string does, whether or not the catalog takes it. -/
theorem Serves.add_eq {request : Request} {outline? : Option Location} {tree : Tree}
    {outputs : Outputs} (h : Serves request outline? tree outputs) (d : DocString) :
    outputs.add d tree =
      (if request.Accepts d then .ok () else .error (.refused ⟨d.source, d.line⟩),
        { outputs with
          catalog? := outputs.catalog?.map fun catalog => (Catalog.offerAll [d] catalog).2 },
        grown outline? d.text tree) := by
  by_cases haccepts : request.Accepts d
  · unfold Outputs.add
    rw [h.writeOutline, if_pos haccepts]
    cases hcatalog : outputs.catalog? with
    | none =>
      have hself : { outputs with catalog? := none } = outputs := by rw [← hcatalog]
      rw [Option.map_none, hself]
    | some catalog =>
      have hwanted : request.catalog = true := by rw [← h.catalog, hcatalog, Option.isSome_some]
      simp [Catalog.offerAll, Catalog.add_of_isText (haccepts hwanted)]
  · obtain ⟨hwanted, htext⟩ := Classical.not_imp.mp haccepts
    obtain ⟨catalog, hcatalog⟩ := Option.isSome_iff_exists.mp (h.catalog.trans hwanted)
    rw [h.add_refused haccepts, if_neg haccepts, hcatalog, Option.map_some]
    simp [Catalog.offerAll, Catalog.add_of_not_isText htext, ← hcatalog]

/-- **What has become of open outputs** after some deeds: the outline has the texts that reached
it and is closed when anything but adding was done, the catalog was offered every string, and no
other file has changed. Only finishing touches the file of the catalog. -/
structure Follows (request : Request) (header : CatalogHeader) (outline? : Option Location)
    (opened : Tree) (deeds : List Deed) (outputs : Outputs) (tree : Tree) : Prop where
  asked : outputs.request = request
  serves : Serves request (if areAdds deeds then outline? else none) tree outputs
  outline : ∀ location executable, outline? = some location →
    opened.find? location = some (.file [] executable) →
      tree.find? location = some (.file (outlined deeds) executable)
  catalog : request.catalog = true →
    outputs.catalog? = some (Catalog.offerAll (added deeds) { header }).2
  keeps : opened.KeepsWrites request.catalogPath → tree.KeepsWrites request.catalogPath
  same : Tree.SameBut (outline?.toList ++
    if request.catalog = true ∧ .finish ∈ deeds then
      (opened.leads true request.catalogPath).toList else []) opened tree

section Steps

variable {request : Request} {header : CatalogHeader} {outline? : Option Location}
  {opened tree : Tree} {deeds : List Deed} {outputs : Outputs}

/-- Writing to the outline changes nothing else. -/
theorem sameBut_grown (outline? : Option Location) (text : Bytes) (tree : Tree) :
    Tree.SameBut outline?.toList tree (grown outline? text tree) := by
  cases outline? with
  | none => exact Tree.SameBut.refl tree
  | some location => exact tree.sameBut_written location text

/-- A string reaches the outline as long as that is open, and is always offered to the catalog. -/
theorem Follows.add (h : Follows request header outline? opened deeds outputs tree)
    (happart : ∀ location, outline? = some location →
      opened.leads true request.catalogPath ≠ some location) (d : DocString) :
    Follows request header outline? opened (deeds ++ [.add d])
      (outputs.add d tree).2.1 (outputs.add d tree).2.2 := by
  have hopen : areAdds (deeds ++ [.add d]) = areAdds deeds := by simp [areAdds, Deed.added?]
  have hmem : Deed.finish ∈ deeds ++ [.add d] ↔ Deed.finish ∈ deeds := by simp
  have hwritten : Tree.SameBut outline?.toList tree
      (grown (if areAdds deeds then outline? else none) d.text tree) := by
    refine (sameBut_grown _ d.text tree).mono ?_
    cases areAdds deeds <;> simp
  rw [h.serves.add_eq d]
  constructor
  case asked => exact h.asked
  case serves =>
    rw [hopen]
    exact h.serves.after d.text rfl (by simp)
  case outline =>
    intro location executable houtline hempty
    have hfile := h.outline location executable houtline hempty
    rw [outlined_append]
    cases areAdds deeds with
    | false => simpa [grown] using hfile
    | true => simpa [grown, houtline, added, Deed.added?] using Tree.find?_written_file hfile d.text
  case catalog =>
    intro hwanted
    simp only [h.catalog hwanted, added_append, Catalog.offerAll_append, Option.map_some]
    rfl
  case keeps =>
    intro hkeeps
    have helsewhere : ∀ place ∈ outline?.toList,
        tree.leads true request.catalogPath ≠ some place := by
      rw [h.same.leads_eq request.catalogPath_namesFile]
      simpa using happart
    rw [Tree.KeepsWrites, hwritten.look_eq request.catalogPath_namesFile helsewhere]
    exact h.keeps hkeeps
  case same =>
    simp only [hmem]
    exact (h.same.trans hwritten).mono (by simp)

/-- What closes the outline leaves it as it is, and leaves the catalog as it is. -/
theorem Follows.closing (h : Follows request header outline? opened deeds outputs tree)
    (happart : ∀ location, outline? = some location →
      opened.leads true request.catalogPath ≠ some location)
    {deed : Deed} (hdeed : deed.added? = none) {tree' : Tree}
    (hkeeps : tree.KeepsWrites request.catalogPath → tree'.KeepsWrites request.catalogPath)
    (hsame : Tree.SameBut (if request.catalog = true ∧ deed = .finish then
      (opened.leads true request.catalogPath).toList else []) tree tree') :
    Follows request header outline? opened (deeds ++ [deed]) outputs.close tree' := by
  have hclosed : areAdds (deeds ++ [deed]) = false := by simp [areAdds, hdeed]
  have hnothing : added [deed] = [] := by simp [added, hdeed]
  constructor
  case asked => exact h.asked
  case serves => exact ⟨by simp [hclosed, Outputs.close], h.serves.catalog, by simp [hclosed]⟩
  case outline =>
    intro location executable houtline hempty
    rw [hsame.find? location]
    · simpa [outlined_append, hnothing] using h.outline location executable houtline hempty
    · intro hmem
      split at hmem
      · exact happart location houtline (Option.mem_toList.mp hmem)
      · cases hmem
  case catalog =>
    intro hwanted
    rw [added_append, hnothing, List.append_nil]
    exact h.catalog hwanted
  case keeps => exact fun hopened => hkeeps (h.keeps hopened)
  case same =>
    refine (h.same.trans hsame).mono fun location hmem => ?_
    grind

/-- Finishing saves the catalog, and closes the outline also when that fails. -/
theorem finish_eq (houtputs : outputs.request = request) (tree : Tree) :
    outputs.finish tree = (match outputs.catalog? with
      | none => (.ok (), outputs.close, tree)
      | some catalog => ((catalog.save request.catalogPath tree).1, outputs.close,
          (tree.save request.catalogPath catalog.text).2)) := by
  unfold Outputs.finish Catalog.save
  rw [houtputs]
  cases outputs.catalog? with
  | none => rfl
  | some catalog =>
    simp only
    rcases tree.save request.catalogPath catalog.text with ⟨_ | _, saved⟩ <;> rfl

/-- Finishing touches the file of the catalog. -/
theorem Follows.finish (h : Follows request header outline? opened deeds outputs tree)
    (happart : ∀ location, outline? = some location →
      opened.leads true request.catalogPath ≠ some location) :
    Follows request header outline? opened (deeds ++ [.finish])
      (outputs.finish tree).2.1 (outputs.finish tree).2.2 := by
  have hfile := request.catalogPath_namesFile
  rw [finish_eq h.asked tree]
  cases hcatalog : outputs.catalog? with
  | none => exact h.closing happart rfl id ((Tree.SameBut.refl tree).mono (by simp))
  | some catalog =>
    have hwanted : request.catalog = true := by
      rw [← h.serves.catalog, hcatalog, Option.isSome_some]
    refine h.closing happart rfl (fun hkeeps => Tree.keepsWrites_save hfile hkeeps catalog.text) ?_
    rw [if_pos ⟨hwanted, rfl⟩]
    rcases tree.save_sameBut request.catalogPath catalog.text with hsame | ⟨location, hleads, hsame⟩
    · rw [hsame]
      exact (Tree.SameBut.refl tree).mono (by simp)
    · rw [h.same.leads_eq hfile] at hleads
      exact hsame.mono (by simp [hleads])

/-- **One more deed.** -/
theorem Follows.perform (h : Follows request header outline? opened deeds outputs tree)
    (happart : ∀ location, outline? = some location →
      opened.leads true request.catalogPath ≠ some location) (deed : Deed) :
    Follows request header outline? opened (deeds ++ [deed])
      (perform deed outputs tree).2.1 (perform deed outputs tree).2.2 := by
  cases deed with
  | add d => exact h.add happart d
  | finish => exact h.finish happart
  | close => exact h.closing happart rfl id ((Tree.SameBut.refl tree).mono (by simp))

/-- **A whole history.** -/
theorem Follows.performAll (h : Follows request header outline? opened deeds outputs tree)
    (happart : ∀ location, outline? = some location →
      opened.leads true request.catalogPath ≠ some location) (more : List Deed) :
    Follows request header outline? opened (deeds ++ more)
      (performAll more outputs tree).2.1 (performAll more outputs tree).2.2 := by
  induction more generalizing deeds outputs tree with
  | nil => simpa [Outputs.performAll] using h
  | cons deed others ih => simpa [Outputs.performAll] using ih (h.perform happart deed)

/-- When the outline is closed, nothing but finishing writes a file. -/
theorem performAll_closed (hclosed : outputs.outline? = none) {later : List Deed}
    (hlater : Deed.finish ∉ later) (tree : Tree) :
    (Outputs.performAll later outputs tree).2.2 = tree := by
  induction later generalizing outputs with
  | nil => rfl
  | cons deed others ih =>
    obtain ⟨hdeed, hothers⟩ := List.ne_and_not_mem_of_not_mem_cons hlater
    have hstep : (Outputs.perform deed outputs tree).2.1.outline? = none ∧
        (Outputs.perform deed outputs tree).2.2 = tree := by
      cases deed with
      | finish => exact absurd rfl hdeed
      | close => exact ⟨rfl, rfl⟩
      | add d =>
        simp only [Outputs.perform, Outputs.add, writeOutline, hclosed]
        split
        · exact ⟨hclosed, rfl⟩
        · split
          · exact ⟨hclosed, rfl⟩
          · exact ⟨rfl, rfl⟩
    simp only [Outputs.performAll, hstep.2]
    exact ih hstep.1 hothers

/-- Without another finish, what was saved stays as it was saved. -/
theorem Follows.contents_saved (h : Follows request header outline? opened deeds outputs tree)
    {catalog : Catalog} (hcatalog : outputs.catalog? = some catalog)
    (hsaved : (outputs.finish tree).1 = .ok ()) (hkeeps : opened.KeepsWrites request.catalogPath)
    {later : List Deed} (hlater : Deed.finish ∉ later) :
    (Outputs.performAll (.finish :: later) outputs tree).2.2.contents request.catalogPath =
      .ok catalog.text := by
  have hfinish := finish_eq h.asked tree
  simp only [hcatalog] at hfinish
  have hlast : (Outputs.performAll (.finish :: later) outputs tree).2.2 =
      (tree.save request.catalogPath catalog.text).2 := by
    simp only [Outputs.performAll, Outputs.perform, hfinish]
    exact performAll_closed rfl hlater _
  rw [hlast]
  rw [hfinish] at hsaved
  unfold Catalog.save at hsaved
  rcases hsave : tree.save request.catalogPath catalog.text with ⟨result, saved⟩
  cases result with
  | error fault => simp [hsave] at hsaved
  | ok done =>
    obtain ⟨location, executable, hleads, hfind, hsame⟩ := Tree.save_ok (h.keeps hkeeps) hsave
    refine Tree.contents_eq_ok (Tree.look_eq_some_iff.mpr ⟨?_, hfind⟩)
    rw [hsame.leads_eq request.catalogPath_namesFile, hleads]

end Steps

/-! ### Every history -/

/-- Opening the outputs changes nothing but the outline. -/
theorem start_sameBut {request : Request} {header : CatalogHeader} {tree opened : Tree}
    {outputs : Outputs} (h : start request header tree = .ok (outputs, opened))
    (hspace : request.needsOutline = true → tree.inspect request.outlinePath ≠ .ok .full) :
    Tree.SameBut outputs.outline?.toList tree opened ∧
      ∀ location, outputs.outline? = some location →
        request.needsOutline = true ∧ tree.leads true request.outlinePath = some location := by
  obtain ⟨-, hnone, hsome⟩ := serves_start h hspace
  cases hneeds : request.needsOutline with
  | false =>
    obtain ⟨houtline, rfl⟩ := hnone hneeds
    rw [houtline]
    exact ⟨Tree.SameBut.refl opened, by simp⟩
  | true =>
    obtain ⟨location, houtline, hleads, -, hsame, -⟩ := hsome hneeds
    rw [houtline]
    exact ⟨hsame, by simpa using hleads⟩

/-- Opening the outputs begins their history. -/
theorem follows_start {request : Request} {header : CatalogHeader} {tree opened : Tree}
    {outputs : Outputs} (h : start request header tree = .ok (outputs, opened))
    (hspace : request.needsOutline = true → tree.inspect request.outlinePath ≠ .ok .full) :
    Follows request header outputs.outline? opened [] outputs opened := by
  obtain ⟨hserves, -, -⟩ := serves_start h hspace
  have hopened : outputs.request = request ∧
      outputs.catalog? = if request.catalog then some { header } else none := by
    unfold start at h
    cases hneeds : request.needsOutline with
    | false =>
      simp only [hneeds, Bool.false_eq_true, if_false, Except.ok.injEq, Prod.mk.injEq] at h
      obtain ⟨rfl, -⟩ := h
      exact ⟨rfl, rfl⟩
    | true =>
      cases hcreate : tree.create request.outlinePath with
      | error fault => simp [hneeds, hcreate] at h
      | ok created =>
        simp only [hneeds, hcreate, if_true, Except.ok.injEq, Prod.mk.injEq] at h
        obtain ⟨rfl, -⟩ := h
        exact ⟨rfl, rfl⟩
  refine ⟨hopened.1, hserves, fun _ _ _ hempty => hempty, fun hwanted => ?_, id, ?_⟩
  · rw [hopened.2, if_pos hwanted]
    rfl
  · exact (Tree.SameBut.refl opened).mono (by simp)

/-- **What a history of the outputs leaves behind**, and what can come next. -/
structure Account (request : Request) (header : CatalogHeader) (tree : Tree) (deeds : List Deed)
    (outputs : Outputs) (tree' : Tree) : Prop where
  /-- The outline has what was added before anything else was done, refused strings included. -/
  outline : request.needsOutline = true → tree.KeepsWrites request.outlinePath →
    tree'.contents request.outlinePath = .ok (outlined deeds)
  /-- The outline is open until anything else is done. -/
  isOpen : outputs.outline?.isSome = (request.needsOutline && areAdds deeds)
  /-- Adding fails exactly for a string that the catalog refuses. -/
  adding : ∀ d, (outputs.add d tree').1 =
    if request.Accepts d then .ok () else .error (.refused ⟨d.source, d.line⟩)
  /-- The catalog has every string that was accepted. Finishing saves it, fails as saving fails,
  and what it has saved stays until the outputs are finished again. -/
  catalog : request.catalog = true → ∃ catalog, outputs.catalog? = some catalog ∧
    (accepted deeds).foldlM Catalog.add { header } = .ok catalog ∧
    (outputs.finish tree').1 = (catalog.save request.catalogPath tree').1 ∧
    ((outputs.finish tree').1 = .ok () → tree.KeepsWrites request.catalogPath →
      ∀ later, Deed.finish ∉ later →
        (performAll (.finish :: later) outputs tree').2.2.contents request.catalogPath =
          .ok catalog.text)
  /-- Without a catalog there is nothing to save. -/
  noCatalog : request.catalog = false → outputs.finish tree' = (.ok (), outputs.close, tree')
  /-- Finishing closes the outputs, whether or not it succeeds. -/
  finishing : (outputs.finish tree').2.1 = outputs.close
  /-- Closing writes nothing, and closing again changes nothing. -/
  closing : perform .close outputs tree' = (.ok (), outputs.close, tree') ∧
    perform .close outputs.close tree' = (.ok (), outputs.close, tree')
  /-- The file of the catalog is not touched before the outputs are first finished, and never if
  no catalog is wanted. -/
  unsaved : Deed.finish ∉ deeds ∨ request.catalog = false → ∀ through,
    tree'.look through request.catalogPath = tree.look through request.catalogPath
  /-- The file of an outline that is not needed is not touched. -/
  noOutline : request.needsOutline = false → ∀ through,
    tree'.look through request.outlinePath = tree.look through request.outlinePath
  /-- No other file is touched. -/
  elsewhere : ∀ location,
    (request.needsOutline = true → tree.leads true request.outlinePath ≠ some location) →
    (request.catalog = true → tree.leads true request.catalogPath ≠ some location) →
      tree'.find? location = tree.find? location

/-- **What can be said of every history.** When the outputs could be opened, the outline has room
and the two files are different, then whatever is done with the outputs, in any order and however
often, is accounted for. -/
theorem performAll_account {request : Request} {header : CatalogHeader} {tree opened : Tree}
    {outputs : Outputs} (hstart : start request header tree = .ok (outputs, opened))
    (hspace : request.needsOutline = true → tree.inspect request.outlinePath ≠ .ok .full)
    (hdifferent : ¬ tree.SameFile request.catalogPath request.outlinePath) (deeds : List Deed) :
    Account request header tree deeds (performAll deeds outputs opened).2.1
      (performAll deeds outputs opened).2.2 := by
  obtain ⟨hserves, hnone, hsome⟩ := serves_start hstart hspace
  have hcatalogFile := request.catalogPath_namesFile
  obtain ⟨hopened, hplace⟩ := start_sameBut hstart hspace
  have hleads : opened.leads true request.catalogPath = tree.leads true request.catalogPath :=
    hopened.leads_eq hcatalogFile true
  have happart : ∀ location, outputs.outline? = some location →
      opened.leads true request.catalogPath ≠ some location := by
    intro location houtline hsame
    rw [hleads] at hsame
    exact hdifferent (Tree.sameFile_of_leads hsame (hplace location houtline).2)
  have hfollows := (follows_start hstart hspace).performAll happart deeds
  rw [List.nil_append] at hfollows
  generalize hfinal : performAll deeds outputs opened = final at hfollows ⊢
  obtain ⟨results, outputs', tree'⟩ := final
  have hsame := hopened.trans hfollows.same
  have htouched : ∀ place ∈ outputs.outline?.toList ++ (outputs.outline?.toList ++
      if request.catalog = true ∧ Deed.finish ∈ deeds then
        (opened.leads true request.catalogPath).toList else []),
      outputs.outline? = some place ∨ request.catalog = true ∧ Deed.finish ∈ deeds ∧
        tree.leads true request.catalogPath = some place := by
    rw [hleads]
    grind
  constructor
  case outline =>
    intro hneeds hkeeps
    obtain ⟨location, houtline, hplaced, -, -, hempty⟩ := hsome hneeds
    obtain ⟨executable, hempty⟩ := hempty hkeeps
    refine Tree.contents_eq_ok (Tree.look_eq_some_iff.mpr
      ⟨?_, hfollows.outline location executable houtline hempty⟩)
    rw [hsame.leads_eq request.outlinePath_namesFile, hplaced]
  case isOpen =>
    have houtline : outputs.outline?.isSome = request.needsOutline := by
      cases hneeds : request.needsOutline with
      | false => simp [(hnone hneeds).1]
      | true =>
        obtain ⟨location, houtline, -⟩ := hsome hneeds
        simp [houtline]
    rw [hfollows.serves.outline, ← houtline]
    cases areAdds deeds <;> simp
  case adding =>
    intro d
    rw [hfollows.serves.add_eq d]
  case catalog =>
    intro hwanted
    obtain ⟨catalog, hoffers, hadd⟩ := Catalog.offerAll_eq (added deeds) { header }
    have hcatalog : outputs'.catalog? = some catalog := by rw [hfollows.catalog hwanted, hoffers]
    refine ⟨catalog, hcatalog, hadd, ?_, fun hsaved hkeeps later hlater => ?_⟩
    · rw [finish_eq hfollows.asked tree', hcatalog]
    · refine hfollows.contents_saved hcatalog hsaved ?_ hlater
      rwa [Tree.KeepsWrites, hopened.look_eq hcatalogFile (by simpa [hleads] using happart)]
  case noCatalog =>
    intro hunwanted
    have hcatalog : outputs'.catalog? = none := by
      simpa [hunwanted] using hfollows.serves.catalog
    rw [finish_eq hfollows.asked tree', hcatalog]
  case finishing =>
    rw [finish_eq hfollows.asked tree']
    cases outputs'.catalog? <;> rfl
  case closing => exact ⟨rfl, rfl⟩
  case unsaved =>
    intro huntouched through
    refine hsame.look_elsewhere hcatalogFile (fun place hmem => ?_) through
    rcases htouched place hmem with houtline | ⟨hwanted, hfinish, -⟩
    · exact hleads ▸ happart place houtline
    · simp [hwanted, hfinish] at huntouched
  case noOutline =>
    intro hneedless through
    refine hsame.look_elsewhere request.outlinePath_namesFile (fun place hmem houtline => ?_)
      through
    rcases htouched place hmem with hplaced | ⟨-, -, hcatalog⟩
    · simp [hneedless] at hplace
      exact hplace place hplaced
    · exact hdifferent (Tree.sameFile_of_leads hcatalog houtline)
  case elsewhere =>
    intro location houtline hcatalog
    refine hsame.find? location fun hmem => ?_
    rcases htouched location hmem with hplaced | ⟨hwanted, -, hplaced⟩
    · exact houtline (hplace location hplaced).1 (hplace location hplaced).2
    · exact hcatalog hwanted hplaced

/-! ### A history with a refusal and two finishes -/

namespace Sample

/-- The catalog of an earlier run, and a link in the place of the outline. -/
def tree : Tree where
  entries := [
    ([utf8 "drafts"], .directory),
    ([utf8 "x.org"], .link (utf8 "drafts/x")),
    ([utf8 "x.pot"], .file (utf8 "old") false)]

def request : Request := { stem := utf8 "x", outline := true, catalog := true }

/-- The second string is not UTF-8, and the third comes too late for the outline. -/
def deeds : List Deed := [
  .add ⟨utf8 "one", utf8 "a.py", 1⟩, .add ⟨[0xff], utf8 "a.py", 2⟩, .finish,
  .add ⟨utf8 "two", utf8 "b.py", 7⟩, .close, .finish]

end Sample

/-- A history in which the outputs are finished twice. -/
theorem performAll_account_sample : ∃ outputs opened,
    start Sample.request Settings.default.catalog Sample.tree = .ok (outputs, opened) ∧
      Account Sample.request Settings.default.catalog Sample.tree Sample.deeds
        (performAll Sample.deeds outputs opened).2.1
        (performAll Sample.deeds outputs opened).2.2 := by
  have hmissing : Sample.tree.inspect Sample.request.outlinePath = .error .missing := rfl
  exact ⟨_, _, rfl,
    performAll_account rfl (by simp [hmissing]) (by decide +kernel) Sample.deeds⟩

end Outputs

end DocHarvest
