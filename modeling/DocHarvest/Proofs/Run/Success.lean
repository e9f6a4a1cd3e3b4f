import DocHarvest.Proofs.Catalog.Grouping
import DocHarvest.Proofs.Run.Exports
import DocHarvest.Proofs.Run.Extraction

/-!
# What a Successful Run Leaves Behind

A successful run has read every source as it was before the run, in order, and its outputs hold
exactly the documentation strings of these sources. The formatter has seen the whole outline in
each of its calls; an outline that was only an intermediate is gone; and an output that nobody
asked for is as it was.

Three things are taken for granted. No source is the outline itself, since that would grow
while it is read. No two outputs share a file, and no device stands in the place of one, since a
device loses what is written without a failure. The formatter, which may do anything else to the
files, does not touch the outline; the catalog and the other outputs that were not asked for are
vouched for as far as the formatter leaves them alone as well.

## Main definitions

* `Request.outputPaths`, `Request.unaskedPaths` — all outputs, and those that are not wanted.
* `Run.Success` — what a successful run has done.

## Main results

* `run_success` — a run that succeeds has done all of it.
-/

namespace DocHarvest

open Files (Tree Location Path)

namespace Request

/-- The paths of all outputs that a request can have. -/
def outputPaths (request : Request) : List Bytes :=
  [request.outlinePath, request.catalogPath, request.exportPath .html, request.exportPath .pdf]

/-- The paths of the outputs that a run has no business with. -/
def unaskedPaths (request : Request) : List Bytes :=
  (if request.needsOutline then [] else [request.outlinePath]) ++
    (if request.catalog then [] else [request.catalogPath]) ++
    (if request.html then [] else [request.exportPath .html]) ++
    (if request.pdf then [] else [request.exportPath .pdf])

/-- An output that nobody asked for shares nothing with the files that are written. -/
theorem apart_of_unasked {request : Request} {tree : Tree}
    (houtputs : request.outputPaths.Pairwise tree.Apart) {path : Bytes}
    (h : path ∈ request.unaskedPaths) :
    Path.NamesFile path ∧
      (request.needsOutline = true → tree.Apart path request.outlinePath) ∧
      (request.catalog = true → tree.Apart path request.catalogPath) := by
  simp only [outputPaths, List.pairwise_cons, List.forall_mem_cons, List.not_mem_nil,
    false_implies, implies_true, and_true, List.Pairwise.nil] at houtputs
  obtain ⟨⟨hcatalog, hhtml, hpdf⟩, ⟨hhtml', hpdf'⟩, -⟩ := houtputs
  simp only [unaskedPaths, List.mem_append] at h
  rcases h with ((h | h) | h) | h <;>
    obtain ⟨hasked, rfl⟩ : _ ∧ path = _ := by simpa using h
  · exact ⟨request.outlinePath_namesFile, fun hneeds => absurd hneeds (by simp [hasked]),
      fun _ => hcatalog⟩
  · exact ⟨request.catalogPath_namesFile, fun _ => hcatalog.symm,
      fun hwanted => absurd hwanted (by simp [hasked])⟩
  · exact ⟨Path.namesFile_append (by decide) (by decide), fun _ => hhtml.symm,
      fun _ => hhtml'.symm⟩
  · exact ⟨Path.namesFile_append (by decide) (by decide), fun _ => hpdf.symm,
      fun _ => hpdf'.symm⟩

end Request

namespace Run

/-- **What a successful run has done**, from the files before it, the calls of its formatter, its
tally and the files after it. -/
structure Success {σ : Type} (request : Request) (materials : Materials σ) (tree : Tree)
    (calls : List Call) (tally : Tally) (tree' : Tree) : Prop where
  /-- Standard input counts as one source. -/
  tally : tally = ⟨max 1 materials.sources.length, (materials.docStrings tree).length,
    request.exports.length⟩
  /-- One call for each document, hypertext before pages, and the outline complete in each. -/
  exports : (calls.map fun call => (call.format, call.path, call.before.contents call.path)) =
    request.exports.map fun format =>
      (format, request.outlinePath, .ok ((materials.docStrings tree).flatMap DocString.text))
  outline : request.outline = true → ∃ executable, tree'.inspect request.outlinePath =
    .ok (.file ((materials.docStrings tree).flatMap DocString.text) executable)
  /-- An intermediate outline is gone; not even a link is left of it. -/
  intermediate : request.outlineIsIntermediate = true →
    tree'.inspect request.outlinePath = .error .missing ∧
      ∀ through, tree'.look through request.outlinePath = none
  /-- The catalog collects the strings in order and counts each of them once. -/
  catalog : request.catalog = true → ∃ catalog,
    (materials.docStrings tree).foldlM Catalog.add { header := materials.header } = .ok catalog ∧
      catalog.docStrings.Perm (materials.docStrings tree) ∧
      ((∀ call ∈ calls, call.LeavesAlone request.catalogPath) →
        ∃ executable, tree'.inspect request.catalogPath = .ok (.file catalog.text executable))
  unasked : ∀ path ∈ request.unaskedPaths, (∀ call ∈ calls, call.LeavesAlone path) →
    ∀ through, tree'.look through path = tree.look through path

/-! ### After the outputs are finished -/

section Afterwards

variable {request : Request} {header : CatalogHeader} {tree finished exported tree' : Tree}
  {held : List DocString} {cs : List Call}
  (hfinished : Outputs.Finished request header tree held finished)
  (hchain : Chain finished cs exported)
  (halone : ∀ call ∈ cs, call.LeavesAlone request.outlinePath)
include hfinished hchain halone

/-- Every call of the formatter sees the whole outline. -/
theorem contents_of_mem (hformats : (cs.map fun call => (call.format, call.path)) =
      request.exports.map (·, request.outlinePath)) :
    (cs.map fun call => (call.format, call.path, call.before.contents call.path)) =
      request.exports.map fun format =>
        (format, request.outlinePath, .ok (held.flatMap DocString.text)) := by
  have hseen : ∀ call ∈ cs,
      call.before.contents call.path = .ok (held.flatMap DocString.text) := by
    intro call hcall
    have hpair : (call.format, call.path) ∈ request.exports.map (·, request.outlinePath) :=
      hformats ▸ List.mem_map_of_mem hcall
    obtain ⟨format, hformat, heq⟩ := List.mem_map.mp hpair
    obtain ⟨-, hpath⟩ := Prod.mk.inj heq
    have hneeds := Request.needsOutline_of_exports (List.ne_nil_of_mem hformat)
    obtain ⟨location, executable, hlook⟩ := hfinished.outline hneeds
    have hbefore := (hchain.look_eq halone true).2 call hcall
    rw [← hpath]
    exact Tree.contents_eq_ok (hbefore.trans hlook)
  calc (cs.map fun call => (call.format, call.path, call.before.contents call.path))
      = cs.map fun call => (call.format, call.path, .ok (held.flatMap DocString.text)) :=
        List.map_congr_left fun call hcall => by rw [hseen call hcall]
    _ = (cs.map fun call => (call.format, call.path)).map fun (format, path) =>
          (format, path, .ok (held.flatMap DocString.text)) := by
        rw [List.map_map]; rfl
    _ = _ := by rw [hformats, List.map_map]; rfl

variable (hremove : removeIntermediate request exported = .ok tree')
include hremove

/-- The outline is kept or removed, according to the request. -/
theorem outline_afterwards :
    (request.outline = true → ∃ executable, tree'.inspect request.outlinePath =
      .ok (.file (held.flatMap DocString.text) executable)) ∧
    (request.outlineIsIntermediate = true →
      tree'.inspect request.outlinePath = .error .missing ∧
        ∀ through, tree'.look through request.outlinePath = none) := by
  have hlook := (hchain.look_eq halone true).1
  rcases removeIntermediate_ok hremove with ⟨hkept, rfl⟩ | ⟨hintermediate, hgone⟩
  · refine ⟨fun houtline => ?_, fun hintermediate => absurd hintermediate (by simp [hkept])⟩
    obtain ⟨location, executable, hfile⟩ :=
      hfinished.outline (by simp [Request.needsOutline, houtline])
    exact ⟨executable, Tree.inspect_eq_ok (hlook.trans hfile)⟩
  · have hunwanted : request.outline = false := by
      simp only [Request.outlineIsIntermediate, Bool.and_eq_true,
        Bool.not_eq_true'] at hintermediate
      exact hintermediate.1
    refine ⟨fun houtline => absurd houtline (by simp [hunwanted]), fun _ => ?_⟩
    obtain ⟨location, executable, hfile⟩ :=
      hfinished.outline (Request.needsOutline_of_intermediate hintermediate)
    exact Tree.inspect_removed request.outlinePath_namesFile (hlook.trans hfile) hgone

/-- A path that the formatter leaves alone and that is apart from the outline shows in the end what
it showed when the outputs were finished. Otherwise both paths would have led to one place before
the run. -/
theorem look_afterwards {path : Bytes} (hfile : Path.NamesFile path)
    (hapart : request.needsOutline = true → tree.Apart path request.outlinePath)
    (hpath : ∀ call ∈ cs, call.LeavesAlone path) (through : Bool) :
    tree'.look through path = finished.look through path := by
  have hlook := (hchain.look_eq hpath through).1
  rcases removeIntermediate_ok hremove with ⟨-, rfl⟩ | ⟨hintermediate, hgone⟩
  · exact hlook
  have hneeds := Request.needsOutline_of_intermediate hintermediate
  obtain ⟨location, executable, houtline⟩ := hfinished.outline hneeds
  obtain ⟨places, hsame, -⟩ := hfinished.same
  have houtlines := fun a => (hchain.look_eq halone a).1
  rw [← hlook]
  refine Tree.look_removed request.outlinePath_namesFile
    ((houtlines true).trans houtline) hgone hfile fun found entry a hshown hled => ?_
  have hfound := (Tree.look_eq_some_iff.mp hshown).2
  have hboth := houtlines a ▸ Tree.look_eq_some_iff.mpr ⟨hled, hfound⟩
  rw [hlook] at hshown
  have hpathLed := (Tree.look_eq_some_iff.mp hshown).1
  have houtlineLed := (Tree.look_eq_some_iff.mp hboth).1
  rw [hsame.leads_eq hfile] at hpathLed
  rw [hsame.leads_eq request.outlinePath_namesFile] at houtlineLed
  exact (hapart hneeds).ne hpathLed houtlineLed

end Afterwards

end Run

/-- **What a run that succeeds has done.** Its calls are those that a recording formatter notes
in the very same run. What `houtline` and `hcatalog` ask of the outputs that are written stands
for writes that do not fail unnoticed: a file keeps what is written to it, a device does not. -/
theorem run_success {σ : Type} {request : Request} {materials : Run.Materials σ}
    {tree tree' : Tree} {state state' : σ} {tally : Tally}
    (hrun : run request materials tree state = (.ok (), tally, tree', state'))
    (hsources : ∀ path ∈ materials.sources, ¬ tree.SameFile path request.outlinePath)
    (houtputs : request.outputPaths.Pairwise tree.Apart)
    (houtline : request.needsOutline = true → tree.KeepsWrites request.outlinePath)
    (hcatalog : request.catalog = true → tree.KeepsWrites request.catalogPath)
    (hformatter : ∀ call ∈ Run.calls request materials tree state,
      call.LeavesAlone request.outlinePath) :
    run request materials.recorded tree (state, []) =
        (.ok (), tally, tree', state', Run.calls request materials tree state) ∧
      Run.Success request materials tree (Run.calls request materials tree state) tally
        tree' := by
  obtain ⟨hrecorded, outputs, opened, tally₀, outputs', extracted, outputs'', finished, exported,
    hstart, hextract, hfinish, hchain, hformats, htally, hremove⟩ := Run.steps_of_run hrun
  have hapart : tree.Apart request.outlinePath request.catalogPath :=
    List.rel_of_pairwise_cons houtputs (by simp)
  obtain ⟨hholding, rfl⟩ :=
    (Outputs.holding_start houtline hstart).extractAll hsources hextract
  have hfinished := hholding.finish hapart hcatalog hfinish
  have hkept := Run.outline_afterwards hfinished hchain hformatter hremove
  have hseen := Run.contents_of_mem hfinished hchain hformatter hformats
  refine ⟨hrecorded, by simpa using htally, hseen, hkept.1, hkept.2, fun hwanted => ?_,
    fun path hpath halone through => ?_⟩
  · obtain ⟨catalog, location, executable, hheld, hlook⟩ := hfinished.catalog hwanted
    refine ⟨catalog, hheld, Catalog.docStrings_addAll hheld, fun halone => ⟨executable, ?_⟩⟩
    have hsame := Run.look_afterwards hfinished hchain hformatter hremove
      request.catalogPath_namesFile (fun _ => hapart.symm) halone true
    exact Tree.inspect_eq_ok (hsame.trans hlook)
  · obtain ⟨hfile, hfromOutline, hfromCatalog⟩ := Request.apart_of_unasked houtputs hpath
    obtain ⟨places, hsame, hplaces⟩ := hfinished.same
    rw [Run.look_afterwards hfinished hchain hformatter hremove hfile hfromOutline halone]
    refine hsame.look_eq hfile fun location hmem hled => ?_
    rcases hplaces location hmem with ⟨hneeds, hother⟩ | ⟨hwanted, hother⟩
    · exact (hfromOutline hneeds).ne hled hother
    · exact (hfromCatalog hwanted).ne hled hother

/-! ### A run with an intermediate outline -/

namespace Run.Sample

/-- Two sources, and a link in the place of the outline that leads to no file yet. -/
def tree : Tree where
  entries := [
    ([utf8 "a.py"], .file (utf8 "\"\"\"one\"\"\"\n") false),
    ([utf8 "b.py"], .file (utf8 "f(x)\n\"\"\"two\"\"\"\n\"\"\"one\"\"\"") false),
    ([utf8 "drafts"], .directory),
    ([utf8 "x.org"], .link (utf8 "drafts/x"))]

/-- Everything but the outline is wanted. -/
def request : Request := { stem := utf8 "x", html := true, pdf := true, catalog := true }

/-- A formatter that copies the outline into the document. -/
def copy : Formatter Unit := fun format outline (tree, state) =>
  match tree.contents outline with
  | .ok text => (.ok (), (tree.save (request.exportPath format) text).2, state)
  | .error _ => (.ok (), tree, state)

def materials : Materials Unit where
  sources := [utf8 "a.py", utf8 "b.py"]
  input? := none
  header := Settings.default.catalog
  formatter? := some copy

end Run.Sample

/-- A run from two sources with an outline that is written through a link. -/
theorem run_success_sample :
    ∃ tree', run Run.Sample.request Run.Sample.materials Run.Sample.tree () =
        (.ok (), ⟨2, 3, 2⟩, tree', ()) ∧
      Run.Success Run.Sample.request Run.Sample.materials Run.Sample.tree
        (Run.calls Run.Sample.request Run.Sample.materials Run.Sample.tree ()) ⟨2, 3, 2⟩ tree' := by
  have hok : (run Run.Sample.request Run.Sample.materials Run.Sample.tree ()).1.isOk = true ∧
      (run Run.Sample.request Run.Sample.materials Run.Sample.tree ()).2.1 = ⟨2, 3, 2⟩ := by
    decide +kernel
  rcases hrun : run Run.Sample.request Run.Sample.materials Run.Sample.tree () with
    ⟨result, tally, tree', state⟩
  rw [hrun] at hok
  obtain ⟨hresult, rfl⟩ := hok
  cases result with
  | error error => cases hresult
  | ok done =>
    obtain ⟨-, hsuccess⟩ := run_success hrun (by decide +kernel) (by decide +kernel)
      (by decide +kernel) (by decide +kernel) (by decide +kernel)
    exact ⟨tree', rfl, hsuccess⟩

end DocHarvest
