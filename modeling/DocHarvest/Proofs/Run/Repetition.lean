import DocHarvest.Proofs.Run.Determined
import DocHarvest.Proofs.Run.Lockstep

/-!
# Running Again

A run that is repeated at once does the same once more: it reads the same sources, empties and
fills the same files, and removes the same intermediate. Two runs are followed side by side here,
one in the files before the first run and one in the files after it. The files differ, since the
first run has left its outputs; but at every moment each location is the same in both, or still has
in each what it had in the beginning. In the end the second case says that the second run has
touched nothing where the first did not either.

This needs that the paths which a run follows, to its outputs and its sources, lead in the second
run where they led in the first. So it is said for runs that leave the layout of the files alone
at the places through which these paths go. What is made, changed or removed elsewhere is of no
concern, be it a file, a directory or a link.

One link is an exception. An intermediate outline may be written through a link that leads to no
file yet. The run itself removes the link, and the next one writes the outline in its place. The
two outlines are different files then, and what is asked for is that the outline is neither a
source nor the catalog and that the formatter leaves it alone.

## Main definitions

* `Run.ways` — the places through which a run reaches its outputs and its sources.
* `Run.linked?`, `Run.unlinked` — the link that a run removes, and the files without it.
* `Run.RestRepeated` — what follows the outputs is repeated and changes nothing.
* `Run.Along`, `Run.Beside` — the files of two runs while documents are made.

## Main results

* `Run.prepared_again`, `Run.prepared_unlinked` — a run is prepared to be repeated.
* `Run.rest_again`, `Run.rest_unlinked` — the rest of a run is repeated, without such a link and
  with one.
* `run_again` — a repeated run succeeds with the same tally and changes nothing.
-/

namespace DocHarvest

open Files (Tree Location Path)

namespace Run

/-! ### The places of a run -/

/-- The paths that a run follows besides that of its outline. -/
def otherPaths (request : Request) (sources : List Bytes) : List Bytes :=
  (if request.catalog then [request.catalogPath] else []) ++ sources

/-- The paths that a run follows, to its outputs and its sources. -/
def paths (request : Request) (sources : List Bytes) : List Bytes :=
  (if request.needsOutline then [request.outlinePath] else []) ++ otherPaths request sources

/-- The places through which a run reaches its outputs and its sources. -/
def ways (request : Request) (sources : List Bytes) (tree : Tree) : List Location :=
  (paths request sources).flatMap tree.passed

/-- The link in the place of an intermediate outline. The outline is written through it, and in
the end it is removed. -/
def linked? (request : Request) (tree : Tree) : Option Location :=
  if request.outlineIsIntermediate then
    match tree.look false request.outlinePath with
    | some (location, .link _) => some location
    | _ => none
  else none

/-- The files without the link in the place of an intermediate outline. -/
def unlinked (request : Request) (tree : Tree) : Tree :=
  match linked? request tree with
  | some location => tree.erase location
  | none => tree

section Ways

variable {request : Request} {sources : List Bytes} {tree : Tree} {path : Bytes}

/-- Each path of a run goes through its places. -/
theorem passed_subset_ways (h : path ∈ paths request sources) :
    tree.passed path ⊆ ways request sources tree :=
  fun _ hlocation => List.mem_flatMap.mpr ⟨path, h, hlocation⟩

/-- The outline, where it is needed, is among the paths. -/
theorem outline_mem_paths (h : request.needsOutline = true) :
    request.outlinePath ∈ paths request sources := by
  simp [paths, h]

/-- The catalog, where it is wanted, is among the other paths. -/
theorem catalog_mem_otherPaths (h : request.catalog = true) :
    request.catalogPath ∈ otherPaths request sources := by
  simp [otherPaths, h]

/-- The sources are among the other paths. -/
theorem source_mem_otherPaths (h : path ∈ sources) : path ∈ otherPaths request sources :=
  List.mem_append_right _ h

/-- The other paths are among the paths. -/
theorem mem_paths (h : path ∈ otherPaths request sources) : path ∈ paths request sources :=
  List.mem_append_right _ h

/-- The link that a run removes stands in the place of its intermediate outline. -/
theorem linked?_eq_some_iff {gone : Location} : linked? request tree = some gone ↔
    request.outlineIsIntermediate = true ∧
      ∃ target, tree.look false request.outlinePath = some (gone, .link target) := by
  unfold linked?
  cases request.outlineIsIntermediate with
  | false => simp
  | true =>
    rcases tree.look false request.outlinePath with _ | ⟨location, _ | _ | _ | _ | _⟩ <;>
      simp [Prod.ext_iff]

end Ways

/-! ### Prepared runs -/

section Prepared

variable {request : Request} {header : CatalogHeader} {sources : List Bytes}
  {tree tree' opened : Tree} {outputs : Outputs}

/-- A run is prepared to be repeated where the layout is as it was. -/
theorem prepared_again (hstart : Outputs.start request header tree = .ok (outputs, opened))
    (hways : Tree.SameLayout (ways request sources tree) tree tree')
    (hsources : ∀ path ∈ sources, tree'.contents path = tree.contents path) :
    Prepared request sources outputs.outline? outputs.outline? tree tree' := by
  obtain ⟨hnone, hsome⟩ := outline_of_start hstart
  have hsame : ∀ {path : Bytes} {location : Location}, path ∈ paths request sources →
      Path.NamesFile path → tree.leads true path = some location →
      tree'.leads true path = some location ∧ tree'.layout location = tree.layout location := by
    intro path location hpath hfile hleads
    have hpassed : tree.passed path ⊆ ways request sources tree := passed_subset_ways hpath
    exact ⟨(hways.leads_eq hpassed hfile true).trans hleads,
      hways.layout location (hpassed (Tree.mem_passed_of_leads hleads))⟩
  refine ⟨hnone, fun location hneeds hleads => ?_, ⟨fun location houtline => ?_, ?_, ?_⟩,
    fun location hwanted hleads => ?_⟩
  · obtain ⟨hleads', hlayout⟩ :=
      hsame (outline_mem_paths hneeds) request.outlinePath_namesFile hleads
    obtain ⟨outline, houtline, hopened, -⟩ := hsome hneeds
    exact ⟨location, houtline.trans (hopened.symm.trans hleads), hleads', hlayout⟩
  · cases hneeds : request.needsOutline with
    | false => simp [hnone hneeds] at houtline
    | true =>
      obtain ⟨outline, hopened, -, hplain⟩ := hsome hneeds
      obtain rfl := Option.some.inj (hopened.symm.trans houtline)
      exact hplain
  · intro path hpath hfile hleads
    exact (hways.leads_eq (passed_subset_ways (mem_paths (source_mem_otherPaths hpath))) hfile
      true).trans hleads
  · intro path hpath location entry hlocate houtline
    have hpassed : tree.passed path ⊆ ways request sources tree :=
      passed_subset_ways (mem_paths (source_mem_otherPaths hpath))
    exact ⟨hways.locate hpassed hlocate
      (hways.find?_of_contents hpassed hlocate (hsources path hpath)), houtline⟩
  · obtain ⟨hleads', hlayout⟩ := hsame (mem_paths (catalog_mem_otherPaths hwanted))
      request.catalogPath_namesFile hleads
    exact ⟨hleads', hlayout, Iff.rfl⟩

end Prepared

section Unlinked

variable {request : Request} {sources : List Bytes} {tree tree' : Tree} {gone behind : Location}
  {target : Bytes}

/-- **A run that writes its intermediate outline through a link** is prepared to be repeated when
the link is gone: the outline is then written in the place of the link. -/
theorem prepared_unlinked (hneeds : request.needsOutline = true)
    (hgone : tree.look false request.outlinePath = some (gone, .link target))
    (hbehind : tree.leads true request.outlinePath = some behind)
    (hmissing : tree.find? behind = none)
    (hways : Tree.SameLayout (ways request sources tree) (tree.erase gone) tree')
    (hapart : ∀ path ∈ otherPaths request sources, tree.Apart path request.outlinePath)
    (hsources : ∀ path ∈ sources, tree'.contents path = tree.contents path) :
    Prepared request sources (some behind) (some gone) tree tree' := by
  obtain ⟨hleadsGone, hlink⟩ := Tree.look_eq_some_iff.mp hgone
  have hfile := request.outlinePath_namesFile
  have hroot : gone ≠ [] := tree.ne_nil_of_find? (by simp [hlink])
  have hleaf : tree.way? behind = none := by simp [Tree.way?, hmissing]
  have hpassed : ∀ {path : Bytes}, path ∈ paths request sources →
      (tree.erase gone).passed path ⊆ ways request sources tree := fun hpath =>
    List.Subset.trans (Tree.passed_erase hroot _) (passed_subset_ways hpath)
  have hother : ∀ {path : Bytes} {location : Location}, path ∈ otherPaths request sources →
      tree.leads true path = some location → location ≠ gone ∧ location ≠ behind := by
    intro path location hpath hleads
    have hne := fun b => (hapart path hpath).ne (b := b) hleads
    exact ⟨fun h => hne false (h ▸ hleadsGone), fun h => hne true (h ▸ hbehind)⟩
  refine ⟨by simp [hneeds], fun location _ hleads => ?_, ⟨?_, ?_, ?_⟩,
    fun location hwanted hleads => ?_⟩
  · obtain rfl := Option.some.inj (hbehind.symm.trans hleads)
    have hleads' := Tree.leads_erased hfile hgone hbehind hleaf true
    have hwithin := hpassed (outline_mem_paths hneeds)
    refine ⟨gone, rfl, (hways.leads_eq hwithin hfile true).trans hleads', ?_⟩
    rw [hways.layout gone (hwithin (Tree.mem_passed_of_leads hleads')), Tree.layout, Tree.layout,
      tree.find?_erase_self hroot, hmissing]
  · rintro location ⟨⟩
    simp [hmissing]
  · intro path hpath hnames hleads
    exact absurd rfl (hother (source_mem_otherPaths hpath) hleads).2
  · intro path hpath location entry hlocate hne
    obtain ⟨hleads, hfind⟩ := Tree.look_eq_some_iff.mp (Tree.locate_eq_ok_iff.mp hlocate)
    obtain ⟨hnotGone, hnotBehind⟩ := hother (source_mem_otherPaths hpath) hleads
    have hwithin := hpassed (mem_paths (source_mem_otherPaths hpath))
    have hlocate' := Tree.locate_unlinked hfile hgone hbehind hleaf hlocate hnotGone hnotBehind
    have hcontents : tree'.contents path = (tree.erase gone).contents path := by
      rw [hsources path hpath, Tree.contents_eq_of_locate hlocate hlocate']
    exact ⟨hways.locate hwithin hlocate' (hways.find?_of_contents hwithin hlocate' hcontents),
      by simpa using Ne.symm hnotGone⟩
  · have hpath : request.catalogPath ∈ otherPaths request sources :=
      catalog_mem_otherPaths hwanted
    obtain ⟨hnotGone, hnotBehind⟩ := hother hpath hleads
    have hcatalog := request.catalogPath_namesFile
    have hwithin := hpassed (mem_paths hpath)
    have hleads' :=
      Tree.leads_unlinked hfile hgone hbehind hleaf hcatalog hleads hnotGone hnotBehind
    refine ⟨(hways.leads_eq hwithin hcatalog true).trans hleads', ?_, ?_⟩
    · rw [hways.layout location (hwithin (Tree.mem_passed_of_leads hleads')), Tree.layout,
        Tree.layout, tree.find?_erase_ne hnotGone]
    · simp [Ne.symm hnotGone, Ne.symm hnotBehind]

end Unlinked

/-! ### The documents and the intermediate outline -/

/-- **The rest of a run is repeated**, what follows its outputs: in the files that the first run has
left nothing is in the way of the second, which makes the same documents, removes its intermediate
and leaves every file as it was. -/
def RestRepeated {σ : Type} (request : Request) (formatter : Formatter σ) (tally tally' : Tally)
    (tree' finished' : Tree) (state₂ : σ) : Prop :=
  ∃ exported' final' tree₂, exportAll formatter request.outlinePath request.exports tally
      (finished', state₂) = (.ok (), tally', exported', final') ∧
    removeIntermediate request exported' = .ok tree₂ ∧ check request tree' = .ok () ∧
    tree₂.workingDirectory = tree'.workingDirectory ∧
    ∀ location, tree₂.find? location = tree'.find? location

/-- With the rest, the whole run is repeated. -/
theorem RestRepeated.run {σ : Type} {request : Request} {materials : Materials σ}
    {tally tally' : Tally} {tree' opened' extracted' finished' : Tree}
    {outputs outputs' outputs'' : Outputs} {state₂ : σ}
    (h : RestRepeated request materials.formatter tally tally' tree' finished' state₂)
    (hformatter : request.exports ≠ [] → materials.formatter?.isSome)
    (hstart : Outputs.start request materials.header tree' = .ok (outputs, opened'))
    (hextract : extractAll materials.sources materials.input? outputs opened' =
      (.ok (), tally, outputs', extracted'))
    (hfinish : outputs'.finish extracted' = (.ok (), outputs'', finished')) :
    ∃ tree₂ state₂', DocHarvest.run request materials tree' state₂ =
        (.ok (), tally', tree₂, state₂') ∧
      tree₂.workingDirectory = tree'.workingDirectory ∧
      ∀ location, tree₂.find? location = tree'.find? location := by
  obtain ⟨exported', final', tree₂, hexport, hremove, hcheck, hdirectory, hsame⟩ := h
  exact ⟨tree₂, final', run_eq_ok_iff.mpr ⟨hcheck, hformatter, _, _, _, _, _, _, _, _, hstart,
    hextract, hfinish, hexport, hremove⟩, hdirectory, hsame⟩

/-- **The files of two runs with one outline**, side by side while documents are made: what was
done so far had the same effect, the layout is as it was at some places, and the outlines are the
same. -/
structure Along (places : List Location) (outline? : Option Location)
    (start start' now now' : Tree) : Prop where
  effect : Tree.SameEffect start start' now now'
  layout : Tree.SameLayout places start now
  outline : ∀ location, outline? = some location → now'.find? location = now.find? location

/-- **The files of two runs with different outlines**, side by side while documents are made: what
the calls have done so far had the same effect, the layout is as it was at some places, and the
first run shows its outline as it was when the outputs were finished. -/
structure Beside (places : List Location) (outline : Bytes)
    (start finished finished' now now' : Tree) : Prop where
  effect : Tree.SameEffect finished finished' now now'
  layout : Tree.SameLayout places start now
  shown : ∀ through, now.look through outline = finished.look through outline

/-- An intermediate outline that is no link is removed in both runs. -/
theorem Along.remove {places : List Location} {request : Request} {outline : Location}
    {tree tree' exported exported' removed : Tree}
    (h : Along places (some outline) tree tree' exported exported')
    (hplaces : tree.passed request.outlinePath ⊆ places)
    (hpassed : Tree.SameLayout (tree.passed request.outlinePath) tree tree')
    (hunlinked : ∀ gone target, tree.look false request.outlinePath ≠ some (gone, .link target))
    (hleads : tree.leads true request.outlinePath = some outline)
    (hempty : tree.find? outline = none)
    (hremove : exported.remove request.outlinePath = .ok removed) :
    removed = exported.erase outline ∧
      exported'.remove request.outlinePath = .ok (exported'.erase outline) := by
  have hfile := request.outlinePath_namesFile
  have hkept : Tree.SameLayout (tree.passed request.outlinePath) tree exported :=
    h.layout.mono hplaces
  have hkept' : Tree.SameLayout (tree.passed request.outlinePath) tree exported' :=
    hkept.trans (h.effect.layout hpassed)
  obtain ⟨gone, entry, hlook, rfl⟩ := Tree.remove_ok hremove
  obtain ⟨hgone, hentry⟩ := Tree.look_eq_some_iff.mp hlook
  rw [hkept.leads_eq (List.Subset.refl _) hfile] at hgone
  have hthrough := Tree.leads_true_of_not_link hfile hgone fun target hway =>
    hunlinked gone target (Tree.look_eq_some_iff.mpr ⟨hgone, Tree.way?_eq_link.mp hway⟩)
  obtain rfl : gone = outline := Option.some.inj (hthrough.symm.trans hleads)
  have hlayout := hkept.layout gone (Tree.mem_passed_of_leads hleads)
  have hplain : entry ≠ .directory := by
    rintro rfl
    simp [Files.Entry.eq_of_fixture? hlayout.symm hentry (by simp)] at hempty
  have hlook' : exported'.look false request.outlinePath = some (gone, entry) :=
    Tree.look_eq_some_iff.mpr ⟨(hkept'.leads_eq (List.Subset.refl _) hfile false).trans hgone,
      (h.outline gone rfl).trans hentry⟩
  exact ⟨rfl, Tree.remove_of_look hlook' hplain⟩

/-- **The outline of the second run** is in the place of the link, or the calls have put the same
link there again, which leads to the outline of the first run. Either way it reads as that one, and
what stands in the place of the link can be removed. -/
theorem Beside.outline {places : List Location} {path content target : Bytes}
    {gone behind : Location} {tree finished finished' now now' : Tree}
    (h : Beside places path tree finished finished' now now') (hfile : Path.NamesFile path)
    (hplaces : tree.passed path ⊆ places)
    (hpassed : Tree.SameLayout (tree.passed path) (tree.erase gone) finished')
    (hlink : finished.look false path = some (gone, .link target))
    (houtline : finished.look true path = some (behind, .file content false))
    (hnew : finished'.find? gone = some (.file content false))
    (hold : finished'.find? behind = some (.file content false)) :
    now'.contents path = now.contents path ∧
      ∃ entry, now'.look false path = some (gone, entry) ∧ entry ≠ .directory := by
  have hkept : Tree.SameLayout (tree.passed path) tree now := h.layout.mono hplaces
  have hnowLink := (h.shown false).trans hlink
  have hnowOutline := (h.shown true).trans houtline
  obtain ⟨hleadsGone, hgone⟩ := Tree.look_eq_some_iff.mp hnowLink
  obtain ⟨hleads, hbehind⟩ := Tree.look_eq_some_iff.mp hnowOutline
  have hroot : gone ≠ [] := now.ne_nil_of_find? (by simp [hgone])
  have hown : now.passed path = tree.passed path := hkept.passed_eq (List.Subset.refl _)
  have hothers : ∀ location ∈ tree.passed path, location ≠ gone →
      now'.layout location = now.layout location := by
    intro location hlocation hne
    rcases h.effect.find? location with hsame | ⟨-, hsame⟩
    · rw [Tree.layout, Tree.layout, hsame]
    · have hlayout := hpassed.layout location hlocation
      rw [hkept.layout location hlocation, Tree.layout, hsame, ← Tree.layout, hlayout, Tree.layout,
        Tree.layout, tree.find?_erase_ne hne]
  rcases h.effect.find? gone with hsame | ⟨-, hsame⟩
  · have hboth : Tree.SameLayout (now.passed path) now now' := by
      refine ⟨h.effect.workingDirectory, fun location hlocation => ?_⟩
      by_cases hne : location = gone
      · rw [hne, Tree.layout, Tree.layout, hsame]
      · exact hothers location (hown ▸ hlocation) hne
    have hleads' := fun through => hboth.leads_eq (List.Subset.refl _) hfile through
    have hfound' : now'.find? behind = some (.file content false) := by
      rcases h.effect.find? behind with hat | ⟨-, hat⟩
      · exact hat.trans hbehind
      · exact hat.trans hold
    exact ⟨Tree.contents_eq hleads ((hleads' true).trans hleads) (hfound'.trans hbehind.symm),
      .link target, Tree.look_eq_some_iff.mpr ⟨(hleads' false).trans hleadsGone, hsame.trans hgone⟩,
      by simp⟩
  · have hboth : Tree.SameLayout (now.passed path) (now.erase gone) now' := by
      refine ⟨h.effect.workingDirectory, fun location hlocation => ?_⟩
      by_cases hne : location = gone
      · rw [hne, Tree.layout, Tree.layout, hsame, hnew, now.find?_erase_self hroot]
        rfl
      · rw [hothers location (hown ▸ hlocation) hne, Tree.layout, Tree.layout,
          now.find?_erase_ne hne]
    have hleads' : ∀ through, now'.leads through path = some gone := fun through =>
      (hboth.leads_eq (Tree.passed_erase hroot path) hfile through).trans
        (Tree.leads_erased hfile hnowLink hleads (Tree.way?_file hbehind) through)
    have hfound' := hsame.trans hnew
    exact ⟨Tree.contents_eq hleads (hleads' true) (hfound'.trans hbehind.symm),
      .file content false, Tree.look_eq_some_iff.mpr ⟨hleads' false, hfound'⟩, by simp⟩

section Documents

variable {σ : Type} {request : Request} {formatter : Formatter σ} {places saved : List Location}
  {tree tree' finished finished' exported : Tree} {tally tally' : Tally} {state final : σ}
  {cs : List Call}
  (hformatter : request.exports ≠ [] → Determined places tree formatter)
  (hexport : exportAll formatter request.outlinePath request.exports tally (finished, state) =
    (.ok (), tally', exported, final))
  (hrecord : exportAll (recorded formatter) request.outlinePath request.exports tally
    (finished, state, []) = (.ok (), tally', exported, final, cs))
  (hplaces : Tree.SameLayout places tree tree')
  (hcalls : ∀ call ∈ cs,
    Tree.SameLayout (tree.passed request.outlinePath ++ places) call.before call.after)

section OneOutline

variable {outline? : Option Location}
  (hfinished : Finished outline? outline? saved tree tree' finished finished')
  (houtline : request.needsOutline = true → ∃ location, outline? = some location ∧
    tree.leads true request.outlinePath = some location ∧ tree.find? location ≠ some .directory)
  (hpassed : request.needsOutline = true →
    Tree.SameLayout (tree.passed request.outlinePath) tree tree')
include hformatter hexport hrecord hplaces hcalls hfinished houtline hpassed

/-- The documents are made again, with the same effect, where the outlines are one file. -/
theorem documents_again (state₂ : σ) :
    ∃ exported' final', exportAll formatter request.outlinePath request.exports tally
        (finished', state₂) = (.ok (), tally', exported', final') ∧
      Along (tree.passed request.outlinePath ++ places) outline? tree tree' exported exported' := by
  have hfile := request.outlinePath_namesFile
  refine exportAll_again (Along (tree.passed request.outlinePath ++ places) outline? tree tree')
    hformatter (fun hexports now now' h => ?_) ?_ hexport hrecord ?_ state₂
  · have hneeds := Request.needsOutline_of_exports hexports
    obtain ⟨location, hopened, hleads, -⟩ := houtline hneeds
    have hnow : Tree.SameLayout (tree.passed request.outlinePath) tree now :=
      h.layout.mono (List.subset_append_left _ _)
    have hplaced : Tree.SameLayout places tree now := h.layout.mono (List.subset_append_right _ _)
    have hnow' : Tree.SameLayout (tree.passed request.outlinePath) tree now' :=
      hnow.trans (h.effect.layout (hpassed hneeds))
    exact ⟨hplaced, hplaced.trans (h.effect.layout hplaces), Tree.contents_eq
      ((hnow.leads_eq (List.Subset.refl _) hfile true).trans hleads)
      ((hnow'.leads_eq (List.Subset.refl _) hfile true).trans hleads)
      (h.outline location hopened)⟩
  · rintro call hcall before' after' hbefore heffect
    exact ⟨hbefore.effect.trans heffect, hbefore.layout.trans (hcalls call hcall),
      fun location hopened => heffect.find?_eq (hbefore.outline location hopened)⟩
  · refine ⟨hfinished.sameEffect hplaces.workingDirectory, hfinished.first.sameLayout _, ?_⟩
    obtain ⟨-, -, hsame, -, -⟩ := hfinished
    rintro location rfl
    cases hsame with
    | some hsame => exact hsame.1

/-- **The rest of a run is repeated** where its outlines are one file and no link, and changes
nothing. -/
theorem rest_again (hremove : removeIntermediate request exported = .ok tree')
    (hlinked : linked? request tree = none) (hcheck : check request tree = .ok ()) (state₂ : σ) :
    RestRepeated request formatter tally tally' tree' finished' state₂ := by
  obtain ⟨exported', final', hexport', halong⟩ := documents_again hformatter hexport hrecord
    hplaces hcalls hfinished houtline hpassed state₂
  obtain ⟨hnamed, hmissing⟩ := check_eq_ok_iff.mp hcheck
  rcases removeIntermediate_ok hremove with ⟨hkeep, rfl⟩ | ⟨hintermediate, hremoved⟩
  · refine ⟨exported', final', exported', hexport', by simp [removeIntermediate, hkeep],
      check_eq_ok_iff.mpr ⟨hnamed, by simp [hkeep]⟩, halong.effect.workingDirectory,
      fun location => ?_⟩
    rcases halong.effect.find? location with hsame | ⟨-, hsame⟩ <;> exact hsame
  · have hneeds := Request.needsOutline_of_intermediate hintermediate
    obtain ⟨outline, rfl, hleads, hdirectory⟩ := houtline hneeds
    have hempty := Tree.find?_of_missing hleads (hmissing hintermediate)
    have hunlinked : ∀ gone target,
        tree.look false request.outlinePath ≠ some (gone, .link target) := fun gone target hlook =>
      Option.some_ne_none gone
        ((linked?_eq_some_iff.mpr ⟨hintermediate, target, hlook⟩).symm.trans hlinked)
    obtain ⟨rfl, hremoved'⟩ := halong.remove (List.subset_append_left _ _) (hpassed hneeds)
      hunlinked hleads hempty hremoved
    have hroot : outline ≠ [] := Tree.ne_nil_of_find? hdirectory
    have hleads' := ((hpassed hneeds).leads_eq (List.Subset.refl _)
      request.outlinePath_namesFile true).trans hleads
    refine ⟨exported', final', exported'.erase outline, hexport',
      by simp [removeIntermediate, hintermediate, hremoved'],
      check_eq_ok_iff.mpr ⟨hnamed, fun _ =>
        Tree.inspect_of_missing hleads' (exported.find?_erase_self hroot)⟩,
      halong.effect.workingDirectory, fun location => ?_⟩
    by_cases hlocation : location = outline
    · rw [hlocation, exported.find?_erase_self hroot, exported'.find?_erase_self hroot]
    · rw [exported'.find?_erase_ne hlocation]
      rcases halong.effect.find? location with hsame | ⟨-, hsame⟩
      · rw [hsame, exported.find?_erase_ne hlocation]
      · exact hsame

end OneOutline

section TwoOutlines

variable {gone behind : Location} {target : Bytes}
  (hfinished : Finished (some behind) (some gone) saved tree tree' finished finished')
  (hgone : tree.look false request.outlinePath = some (gone, .link target))
  (hbehind : tree.leads true request.outlinePath = some behind)
  (hempty : tree.find? behind = none)
include hfinished hgone hbehind hempty

/-- The outputs are finished, the outline in one run behind the link and in the other in its
place. -/
theorem Finished.outlines : ∃ content,
    finished.look false request.outlinePath = some (gone, .link target) ∧
    finished.look true request.outlinePath = some (behind, .file content false) ∧
    finished'.find? gone = some (.file content false) ∧
    finished'.find? behind = tree'.find? behind := by
  have hfile := request.outlinePath_namesFile
  obtain ⟨hleadsGone, hlink⟩ := Tree.look_eq_some_iff.mp hgone
  have hne : behind ≠ gone := by
    rintro rfl
    simp [hlink] at hempty
  have hsaved : ∀ location ∈ saved, location ≠ gone ∧ location ≠ behind := by
    intro location hlocation
    have hown := hfinished.own location hlocation
    exact ⟨fun h => hne (by simpa [h] using hown), fun h => hne (Eq.symm (by simpa [h] using hown))⟩
  have hlayout := hfinished.first.layout behind
  obtain ⟨hfirst, hsecond, hsame, -, -⟩ := hfinished
  cases hsame with
  | some hsame =>
    obtain ⟨content, hcontent⟩ : ∃ content,
        finished.find? behind = some (.file content false) := by
      rw [Tree.layout, Tree.layout, hempty] at hlayout
      rcases hfound : finished.find? behind with _ | (_ | ⟨content, _ | _⟩ | _ | _ | _)
      case none => exact absurd hfound hsame.2
      case some.file.false => exact ⟨content, rfl⟩
      all_goals simp [hfound, Files.Entry.fixture?] at hlayout
    refine ⟨content, Tree.look_eq_some_iff.mpr ⟨?_, ?_⟩, Tree.look_eq_some_iff.mpr ⟨?_, hcontent⟩,
      hsame.1.trans hcontent, ?_⟩
    · rw [hfirst.sameBut.leads_eq hfile, hleadsGone]
    · rw [hfirst.find? gone, hlink]
      simpa [Ne.symm hne] using fun h => (hsaved gone h).1 rfl
    · rw [hfirst.sameBut.leads_eq hfile, hbehind]
    · refine hsecond.find? behind ?_
      simpa [hne] using fun h => (hsaved behind h).2 rfl

variable (hintermediate : request.outlineIsIntermediate = true)
  (hpassed : Tree.SameLayout (tree.passed request.outlinePath) (tree.erase gone) tree')
  (halone : ∀ call ∈ cs, call.LeavesAlone request.outlinePath)
include hintermediate hpassed halone hformatter hexport hrecord hplaces hcalls

/-- **The rest of a run is repeated** where its outline was written through a link that is gone,
and changes nothing. -/
theorem rest_unlinked (hremove : removeIntermediate request exported = .ok tree')
    (hcheck : check request tree = .ok ()) (state₂ : σ) :
    RestRepeated request formatter tally tally' tree' finished' state₂ := by
  have hfile := request.outlinePath_namesFile
  obtain ⟨content, hlink, houtline, hnew, hold⟩ := hfinished.outlines hgone hbehind hempty
  have hroot : gone ≠ [] := tree.ne_nil_of_find? (by simp [(Tree.look_eq_some_iff.mp hgone).2])
  have hne : behind ≠ gone := by
    rintro rfl
    simp [(Tree.look_eq_some_iff.mp hgone).2] at hempty
  obtain ⟨new, hnew', hchain, -⟩ := exportAll_recorded hexport []
  obtain rfl : cs = new := by simpa [hrecord] using hnew'
  have hshown := fun through => (hchain.look_eq halone through).1
  obtain rfl : tree' = exported.erase gone := by
    rcases removeIntermediate_ok hremove with ⟨hkeep, -⟩ | ⟨-, hremoved⟩
    · simp [hkeep] at hintermediate
    · exact (Except.ok.inj ((Tree.remove_of_look ((hshown false).trans hlink)
        (by simp)).symm.trans hremoved)).symm
  have hthere : finished'.find? behind = some (.file content false) := by
    rw [hold, exported.find?_erase_ne hne]
    exact (Tree.look_eq_some_iff.mp ((hshown true).trans houtline)).2
  have hbegun : Tree.SameLayout (tree.passed request.outlinePath) (tree.erase gone) finished' :=
    hpassed.trans (hfinished.second.sameLayout _)
  have hfirst := hfinished.first.sameLayout (tree.passed request.outlinePath ++ places)
  have hstill : Tree.SameLayout places finished finished' :=
    ((hfinished.first.sameLayout places).symm.trans hplaces).trans
      (hfinished.second.sameLayout places)
  have hwithin : tree.passed request.outlinePath ⊆ tree.passed request.outlinePath ++ places :=
    List.subset_append_left _ _
  obtain ⟨exported', final', hexport', hbeside⟩ := exportAll_again
    (Beside (tree.passed request.outlinePath ++ places) request.outlinePath tree finished finished')
    hformatter (fun _ now now' h => by
      have hplaced : Tree.SameLayout places tree now :=
        h.layout.mono (List.subset_append_right _ _)
      exact ⟨hplaced, hplaced.trans (h.effect.layout hstill),
        (h.outline hfile hwithin hbegun hlink houtline hnew hthere).1⟩)
    (fun call hcall before' after' hbefore heffect =>
      ⟨hbefore.effect.trans heffect, hbefore.layout.trans (hcalls call hcall), fun through =>
        (halone call hcall through).trans (hbefore.shown through)⟩)
    hexport hrecord ⟨.refl hstill.workingDirectory, hfirst, fun _ => rfl⟩ state₂
  obtain ⟨-, entry, hlook', hentry⟩ :=
    hbeside.outline hfile hwithin hbegun hlink houtline hnew hthere
  have hleads' : (exported.erase gone).leads true request.outlinePath = some gone := by
    have hleaf : tree.way? behind = none := by simp [Tree.way?, hempty]
    exact (hpassed.leads_eq (Tree.passed_erase hroot _) hfile true).trans
      (Tree.leads_erased hfile hgone hbehind hleaf true)
  refine ⟨exported', final', exported'.erase gone, hexport',
    by simp [removeIntermediate, hintermediate, Tree.remove_of_look hlook' hentry],
    check_eq_ok_iff.mpr ⟨(check_eq_ok_iff.mp hcheck).1, fun _ =>
      Tree.inspect_of_missing hleads' (exported.find?_erase_self hroot)⟩,
    hbeside.effect.workingDirectory, fun location => ?_⟩
  by_cases hlocation : location = gone
  · rw [hlocation, exported.find?_erase_self hroot, exported'.find?_erase_self hroot]
  rw [exported'.find?_erase_ne hlocation, exported.find?_erase_ne hlocation]
  rcases hbeside.effect.find? location with hsame | ⟨hunchanged, hunchanged'⟩
  · exact hsame
  by_cases hsaved : location ∈ saved
  · rw [hunchanged, hunchanged', hfinished.catalog location hsaved]
  · rw [hunchanged', hfinished.second.find? location (by simp [hsaved, hlocation]),
      exported.find?_erase_ne hlocation]

end TwoOutlines

end Documents

end Run

/-- **Running again changes nothing.** After a successful run the same run succeeds again, with the
same tally, and every file stays as the first run has left it.

The sources have to be as they were. The layout has to be as it was in two respects: where the run
goes through on its way to its outputs and sources, for its own steps, and where the formatter goes
by it, for the steps of the formatter; and no call of the formatter may change it on the way to the
outline or where the formatter goes by it. A link in the place of an intermediate outline is removed
by the run itself, and then the outline must be apart from the catalog and the sources and left
alone by the formatter. -/
theorem run_again {σ : Type} {request : Request} {materials : Run.Materials σ}
    {places : List Location} {tree tree' : Tree} {state state' : σ} {tally : Tally}
    (hrun : run request materials tree state = (.ok (), tally, tree', state'))
    (hformatter : ∀ formatter, materials.formatter? = some formatter →
      Run.Determined places tree formatter)
    (hsources : ∀ path ∈ materials.sources, tree'.contents path = tree.contents path)
    (hways : Tree.SameLayout (Run.ways request materials.sources tree) (Run.unlinked request tree)
      tree')
    (hplaces : Tree.SameLayout places tree tree')
    (hcalls : ∀ call ∈ Run.calls request materials tree state,
      Tree.SameLayout (tree.passed request.outlinePath ++ places) call.before call.after)
    (hlink : Run.linked? request tree ≠ none →
      (∀ path ∈ Run.otherPaths request materials.sources,
        tree.Apart path request.outlinePath) ∧
      ∀ call ∈ Run.calls request materials tree state, call.LeavesAlone request.outlinePath)
    (state₂ : σ) :
    ∃ tree₂ state₂', run request materials tree' state₂ = (.ok (), tally, tree₂, state₂') ∧
      tree₂.workingDirectory = tree'.workingDirectory ∧
      ∀ location, tree₂.find? location = tree'.find? location := by
  obtain ⟨hcheck, hsome, -⟩ := run_eq_ok_iff.mp hrun
  obtain ⟨-, outputs, opened, tally₀, outputs', extracted, outputs'', finished, exported, hstart,
    hextract, hfinish, hexport, hrecord, hremove⟩ := Run.recorded_of_run hrun
  have hdetermined : request.exports ≠ [] →
      Run.Determined places tree materials.formatter := by
    intro hexports
    obtain ⟨formatter, hformatter?⟩ := Option.isSome_iff_exists.mp (hsome hexports)
    rw [Run.Materials.formatter, hformatter?]
    exact hformatter formatter hformatter?
  obtain ⟨-, houtline⟩ := Run.outline_of_start hstart
  cases hlinked : Run.linked? request tree with
  | none =>
    simp only [Run.unlinked, hlinked] at hways
    have hprepared := Run.prepared_again hstart hways hsources
    obtain ⟨opened', extracted', finished', saved, hstart', hextract', hfinish', hfinished⟩ :=
      hprepared.finished_again hstart hextract hfinish
    have hpassed : request.needsOutline = true →
        Tree.SameLayout (tree.passed request.outlinePath) tree tree' := fun hneeds =>
      hways.mono (Run.passed_subset_ways (Run.outline_mem_paths hneeds))
    have hrest :=
      Run.rest_again hdetermined hexport hrecord hplaces hcalls hfinished houtline hpassed hremove
        hlinked hcheck state₂
    exact hrest.run hsome hstart' hextract' hfinish'
  | some gone =>
    simp only [Run.unlinked, hlinked] at hways
    obtain ⟨hintermediate, target, hgone⟩ := Run.linked?_eq_some_iff.mp hlinked
    have hneeds := Request.needsOutline_of_intermediate hintermediate
    obtain ⟨behind, hopened, hbehind, -⟩ := houtline hneeds
    have hempty := Tree.find?_of_missing hbehind ((Run.check_eq_ok_iff.mp hcheck).2 hintermediate)
    obtain ⟨hapart, halone⟩ := hlink (by simp [hlinked])
    have hprepared := Run.prepared_unlinked hneeds hgone hbehind hempty hways hapart hsources
    rw [← hopened] at hprepared
    obtain ⟨opened', extracted', finished', saved, hstart', hextract', hfinish', hfinished⟩ :=
      hprepared.finished_again hstart hextract hfinish
    rw [hopened] at hfinished
    have hpassed : Tree.SameLayout (tree.passed request.outlinePath) (tree.erase gone) tree' :=
      hways.mono (Run.passed_subset_ways (Run.outline_mem_paths hneeds))
    have hrest :=
      Run.rest_unlinked hdetermined hexport hrecord hplaces hcalls hfinished hgone hbehind hempty
        hintermediate hpassed halone hremove hcheck state₂
    exact hrest.run hsome hstart' hextract' hfinish'

/-! ### A run that can be repeated -/

namespace Run.Repeated

/-- A source, links in the places of the outline and of the catalog, and a document of an earlier
run. The outline leads to no file yet. -/
def tree : Tree where
  entries := [
    ([utf8 "a.py"], .file (utf8 "\"\"\"one\"\"\"\n\"\"\"two\"\"\"\n") false),
    ([utf8 "messages"], .directory),
    ([utf8 "x.org"], .link (utf8 "messages/draft")),
    ([utf8 "x.pot"], .link (utf8 "messages/x.pot")),
    ([utf8 "x.html"], .file (utf8 "old") false)]

/-- Everything but the outline is wanted. -/
def request : Request := { stem := utf8 "x", html := true, pdf := true, catalog := true }

/-- The formatter copies the outline into the document and makes a directory for images. -/
def materials : Materials Unit where
  sources := [utf8 "a.py"]
  input? := none
  header := Settings.default.catalog
  formatter? := some (illustrating [utf8 "images"] (saving
    (fun format _ => request.exportPath (if format = .html then .html else .pdf))
    fun _ text => text))

/-- The places through which the documents are saved. -/
def places : List Location :=
  tree.passed (request.exportPath .html) ++ tree.passed (request.exportPath .pdf)

/-- The source as it is, before the run and after it. -/
def source : Location × Files.Entry :=
  ([utf8 "a.py"], .file (utf8 "\"\"\"one\"\"\"\n\"\"\"two\"\"\"\n") false)

end Run.Repeated

open Run.Repeated in
/-- A run whose outline was written through a link and whose formatter has made a directory is
repeated. -/
theorem run_again_repeated : ∃ tree' tree'',
    run request materials tree () = (.ok (), ⟨1, 2, 2⟩, tree', ()) ∧
      run request materials tree' () = (.ok (), ⟨1, 2, 2⟩, tree'', ()) ∧
      tree'.find? [utf8 "x.org"] = none ∧ tree'.find? [utf8 "images"] = some .directory ∧
      ∀ location, tree''.find? location = tree'.find? location := by
  have hok : (run request materials tree ()).1.isOk = true ∧
      (run request materials tree ()).2.1 = ⟨1, 2, 2⟩ ∧
      (run request materials tree ()).2.2.1.find? [utf8 "x.org"] = none ∧
      (run request materials tree ()).2.2.1.find? [utf8 "images"] = some .directory := by
    decide +kernel
  have hways : Tree.SameLayout (Run.ways request materials.sources tree)
      (Run.unlinked request tree) (run request materials tree ()).2.2.1 := by decide +kernel
  have hplaces : Tree.SameLayout places tree (run request materials tree ()).2.2.1 := by
    decide +kernel
  have hsource : (run request materials tree ()).2.2.1.look true (utf8 "a.py") =
      some source := by decide +kernel
  rcases hrun : run request materials tree () with ⟨result, tally, tree', state⟩
  rw [hrun] at hok hways hplaces hsource
  obtain ⟨hresult, rfl, hgone, himages⟩ := hok
  cases result with
  | error error => cases hresult
  | ok done =>
    have hunchanged : ∀ path ∈ materials.sources, tree'.contents path = tree.contents path := by
      intro path hpath
      obtain rfl := List.mem_singleton.mp hpath
      have hbefore : tree.look true (utf8 "a.py") = some source := by decide +kernel
      exact (Tree.contents_eq_ok hsource).trans (Tree.contents_eq_ok hbefore).symm
    have hdetermined : ∀ formatter, materials.formatter? = some formatter →
        Run.Determined places tree formatter := by
      rintro formatter ⟨⟩
      refine (Run.determined_saving _ fun format outline => ?_).illustrating (by decide)
      split
      · exact List.subset_append_left _ _
      · exact List.subset_append_right _ _
    obtain ⟨tree'', state'', hagain, -, hsame⟩ := run_again hrun hdetermined hunchanged hways
      hplaces (by decide +kernel) (fun _ => by decide +kernel) ()
    exact ⟨tree', tree'', rfl, hagain, hgone, himages, hsame⟩

/-! ### A formatter that removes a link -/

namespace Run.Relinked

/-- The outline is a link to the catalog. -/
def tree : Tree where
  entries := [
    ([utf8 "a.py"], .file (utf8 "\"\"\"one\"\"\"") false),
    ([utf8 "x.org"], .link (utf8 "x.pot")),
    ([utf8 "x.pot"], .file [] false)]

/-- The outline is wanted, and a document and the catalog with it. -/
def request : Request := { stem := utf8 "x", outline := true, html := true, catalog := true }

/-- The formatter makes the outline into the document. -/
def materials : Materials Unit where
  sources := [utf8 "a.py"]
  input? := none
  header := Settings.default.catalog
  formatter? := some (moving [utf8 "x.org"] [utf8 "x.html"])

/-- The source as it is, before the run and after it. -/
def source : Location × Files.Entry :=
  ([utf8 "a.py"], .file (utf8 "\"\"\"one\"\"\"") false)

end Run.Relinked

open Run.Relinked in
/-- A run that loses a link is not repeated by the same run: the formatter sees the catalog, which
was written over the outline, in the first run, and the outline in the second. -/
theorem run_again_relinked : ∃ tree' tree'',
    run request materials tree () = (.ok (), ⟨1, 1, 1⟩, tree', ()) ∧
      (∀ formatter, materials.formatter? = some formatter → Run.Determined [] tree formatter) ∧
      (∀ path ∈ materials.sources, tree'.contents path = tree.contents path) ∧
      run request materials tree' () = (.ok (), ⟨1, 1, 1⟩, tree'', ()) ∧
      tree''.find? [utf8 "x.html"] ≠ tree'.find? [utf8 "x.html"] := by
  have hfirst : (run request materials tree ()).1.isOk = true ∧
      (run request materials tree ()).2.1 = ⟨1, 1, 1⟩ ∧
      (run request materials tree ()).2.2.1.look true (utf8 "a.py") = some source := by
    decide +kernel
  have hsecond : (run request materials (run request materials tree ()).2.2.1 ()).1.isOk = true ∧
      (run request materials (run request materials tree ()).2.2.1 ()).2.1 = ⟨1, 1, 1⟩ ∧
      (run request materials (run request materials tree ()).2.2.1 ()).2.2.1.find?
          [utf8 "x.html"] ≠
        (run request materials tree ()).2.2.1.find? [utf8 "x.html"] := by
    decide +kernel
  rcases hrun : run request materials tree () with ⟨result, tally, tree', state⟩
  rw [hrun] at hfirst hsecond
  rcases hagain : run request materials tree' () with ⟨result', tally', tree'', state'⟩
  rw [hagain] at hsecond
  obtain ⟨hresult, rfl, hsource⟩ := hfirst
  obtain ⟨hresult', rfl, hdiffer⟩ := hsecond
  have hdetermined : ∀ formatter, materials.formatter? = some formatter →
      Run.Determined [] tree formatter := by
    rintro formatter ⟨⟩
    exact Run.determined_moving (by decide) (by decide) tree
  have hunchanged : ∀ path ∈ materials.sources, tree'.contents path = tree.contents path := by
    intro path hpath
    obtain rfl := List.mem_singleton.mp hpath
    have hbefore : tree.look true (utf8 "a.py") = some source := by decide +kernel
    exact (Tree.contents_eq_ok hsource).trans (Tree.contents_eq_ok hbefore).symm
  cases result with
  | error error => cases hresult
  | ok done =>
    cases result' with
    | error error => cases hresult'
    | ok done => exact ⟨tree', tree'', rfl, hdetermined, hunchanged, hagain, hdiffer⟩

end DocHarvest
