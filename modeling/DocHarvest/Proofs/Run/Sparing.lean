import DocHarvest.Proofs.Files.Growth
import DocHarvest.Proofs.Run.Exports
import DocHarvest.Proofs.Outputs.Contents

/-!
# An Outline That Nobody Asked For

A run that is not asked for an outline spares the one that is there. When no document is wanted
either, no outline is opened, and the catalog is the only file that such a run writes, however it
ends. When a document is wanted, a run that finds anything at the path of the outline refuses
before it touches a file.

The second part has a gap, and the path of the catalog can defeat the first. The check follows a
link at the path of the outline, opening creates the file behind the link, and removing takes the
link itself: a link that leads to an empty place in a directory passes the check, and the run
writes through it and then removes it. And when the path of the catalog leads to the outline, the
catalog is saved over it.

## Main definitions

* `Tree.Covers` — a location is at or below a place that a path leads to.
* `Run.Spared` — a path shows what it showed, and everything below it is as it was.
* `Outputs.Detached` — open outputs without an outline.

## Main results

* `Run.tree_of_no_outline` — the files after a run that needs no outline.
* `Run.refused_of_shown` — a run that would need the outline as an intermediate is refused.
* `run_spares_outline` — both together.
-/

namespace DocHarvest

open Files (Tree Location Path)

/-- A location is at or below a place that a path leads to, with a link at the end of the path
followed or not. -/
def Files.Tree.Covers (tree : Tree) (path : Bytes) (place : Location) : Prop :=
  ∃ through shown, tree.leads through path = some shown ∧ shown <+: place

/-- **A path is spared**: it shows what it showed, whether a link at its end is followed or not,
and everything at and below the places it leads to is as it was. -/
structure Run.Spared (path : Bytes) (tree tree' : Tree) : Prop where
  look : ∀ through, tree'.look through path = tree.look through path
  covered : ∀ place, tree.Covers path place → tree'.find? place = tree.find? place

/-- A tree that is left alone spares every path. -/
theorem Run.Spared.refl (path : Bytes) (tree : Tree) : Run.Spared path tree tree :=
  ⟨fun _ => rfl, fun _ _ => rfl⟩

/-- A path is spared by what happens elsewhere. -/
theorem Run.Spared.of_sameBut {path : Bytes} (hfile : Path.NamesFile path) {place : Location}
    {tree tree' : Tree} (hsame : Tree.SameBut [place] tree tree')
    (helsewhere : ¬ tree.Covers path place) : Run.Spared path tree tree' where
  look through := hsame.look_eq hfile fun l hl hleads =>
    helsewhere ⟨through, l, hleads, List.mem_singleton.mp hl ▸ List.prefix_rfl⟩
  covered l hcovers := hsame.find? l fun hl => helsewhere (List.mem_singleton.mp hl ▸ hcovers)

/-! ### Reading without an outline -/

/-- Open outputs of a request that needs no outline. -/
structure Outputs.Detached (request : Request) (outputs : Outputs) : Prop where
  asked : outputs.request = request
  outline : outputs.outline? = none
  catalog : outputs.catalog?.isSome = request.catalog

namespace Outputs.Detached

variable {request : Request} {outputs : Outputs} (h : Detached request outputs) (tree : Tree)
include h

/-- Adding a string leaves the files alone. -/
theorem add (d : DocString) :
    ∃ result outputs', outputs.add d tree = (result, outputs', tree) ∧
      Detached request outputs' := by
  have hwrite : outputs.writeOutline d.text tree = .ok tree := by
    simp only [Outputs.writeOutline, h.outline]
  simp only [Outputs.add, hwrite]
  cases hcatalog : outputs.catalog? with
  | none => exact ⟨_, outputs, rfl, h⟩
  | some catalog =>
    have hwanted := h.catalog
    rw [hcatalog] at hwanted
    cases hadd : catalog.add d with
    | error refusal =>
      simp only [hadd]
      exact ⟨_, outputs, rfl, h⟩
    | ok larger =>
      simp only [hadd]
      exact ⟨_, _, rfl, ⟨h.asked, h.outline, hwanted⟩⟩

/-- Adding strings leaves the files alone. -/
theorem addAll (ds : List DocString) :
    ∃ result outputs', outputs.addAll ds tree = (result, outputs', tree) ∧
      Detached request outputs' := by
  induction ds generalizing outputs with
  | nil => exact ⟨_, outputs, rfl, h⟩
  | cons d others ih =>
    obtain ⟨result, next, hadd, hnext⟩ := h.add tree d
    simp only [Outputs.addAll, hadd]
    cases result with
    | error error => exact ⟨_, next, rfl, hnext⟩
    | ok done => exact ih hnext

/-- Reading a source leaves the files alone. -/
theorem extract (source : Source) :
    ∃ result outputs', Run.extract source outputs tree = (result, outputs', tree) ∧
      Detached request outputs' := by
  obtain ⟨result, outputs', hadd, hdetached⟩ := h.addAll tree source.docStrings.1
  simp only [Run.extract, hadd]
  cases result <;> cases source.docStrings.2 <;> exact ⟨_, outputs', rfl, hdetached⟩

/-- Reading a file leaves the files alone. -/
theorem extractFile (path : Bytes) :
    ∃ result outputs', Run.extractFile path outputs tree = (result, outputs', tree) ∧
      Detached request outputs' := by
  unfold Run.extractFile
  cases tree.locate path with
  | error fault => exact ⟨_, outputs, rfl, h⟩
  | ok found =>
    cases hsupply : Run.supply? path found.2 with
    | none =>
      simp only [hsupply]
      exact ⟨_, outputs, rfl, h⟩
    | some supplied =>
      simp only [hsupply, h.outline, reduceCtorEq, if_false]
      exact h.extract tree _

/-- Reading files leaves the files alone. -/
theorem extractFiles (paths : List Bytes) (tally : Tally) :
    ∃ result tally' outputs', Run.extractFiles paths tally outputs tree =
      (result, tally', outputs', tree) ∧ Detached request outputs' := by
  induction paths generalizing outputs tally with
  | nil => exact ⟨_, tally, outputs, rfl, h⟩
  | cons path others ih =>
    obtain ⟨result, next, hfile, hnext⟩ := h.extractFile tree path
    simp only [Run.extractFiles, hfile]
    cases result with
    | error error => exact ⟨_, tally, next, rfl, hnext⟩
    | ok n => exact ih hnext _

/-- Without an outline, reading the sources touches no file. -/
theorem extractAll (paths : List Bytes) (input? : Option (Bytes × Source.Ending)) :
    ∃ result tally outputs', Run.extractAll paths input? outputs tree =
      (result, tally, outputs', tree) ∧ Detached request outputs' := by
  unfold Run.extractAll
  split
  · cases input? with
    | none => exact ⟨_, _, outputs, rfl, h⟩
    | some supplied =>
      obtain ⟨bytes, ending⟩ := supplied
      obtain ⟨result, next, hread, hnext⟩ :=
        h.extract tree { name := Run.standardInput, bytes, ending }
      simp only [Run.extractInput, hread]
      cases result <;> exact ⟨_, _, next, rfl, hnext⟩
  · exact h.extractFiles tree paths {}

/-- Finishing saves the catalog, if one is wanted, and touches nothing else. -/
theorem finish :
    ∃ result outputs' tree', outputs.finish tree = (result, outputs', tree') ∧
      (tree' = tree ∨ request.catalog = true ∧
        ∃ text, tree' = (tree.save request.catalogPath text).2) := by
  unfold Outputs.finish
  cases hcatalog : outputs.catalog? with
  | none => exact ⟨_, _, tree, rfl, .inl rfl⟩
  | some catalog =>
    have hwanted : request.catalog = true := by rw [← h.catalog, hcatalog, Option.isSome_some]
    simp only [h.asked]
    refine ⟨_, _, _, rfl, .inr ⟨hwanted, catalog.text, ?_⟩⟩
    unfold Catalog.save
    rcases tree.save request.catalogPath catalog.text with ⟨_ | _, saved⟩ <;> rfl

end Outputs.Detached

/-! ### Runs without an outline -/

namespace Run

variable {σ : Type} {request : Request} {tree : Tree}

/-- Outputs without an outline are detached, and opening them leaves the files alone. -/
theorem detached_start (hneeds : request.needsOutline = false) (header : CatalogHeader)
    (tree : Tree) :
    ∃ outputs, Outputs.start request header tree = .ok (outputs, tree) ∧
      Outputs.Detached request outputs := by
  unfold Outputs.start
  rw [hneeds]
  exact ⟨_, rfl, rfl, rfl, by cases request.catalog <;> rfl⟩

/-- **The files after a run that needs no outline**: they are as they were, except for the
catalog. -/
theorem tree_of_no_outline (hneeds : request.needsOutline = false) (materials : Materials σ)
    (state : σ) :
    (run request materials tree state).2.2.1 = tree ∨ request.catalog = true ∧
      ∃ text, (run request materials tree state).2.2.1 =
        (tree.save request.catalogPath text).2 := by
  have hexports : request.exports = [] := by
    have hneither := request.needsOutline_eq ▸ hneeds
    simpa using (Bool.or_eq_false_iff.mp hneither).2
  have hkept : request.outlineIsIntermediate = false := by
    simp [Request.outlineIsIntermediate, hneeds]
  obtain ⟨outputs, hstart, hdetached⟩ := detached_start hneeds materials.header tree
  obtain ⟨read, tally, outputs', hextract, hdetached'⟩ :=
    hdetached.extractAll tree materials.sources materials.input?
  obtain ⟨saved, outputs'', tree', hfinish, htree⟩ := hdetached'.finish tree
  unfold run
  split
  · exact .inl rfl
  · exact .inl rfl
  simp only [hstart, hextract]
  cases read with
  | error error => exact .inl rfl
  | ok done =>
    simp only [hfinish]
    cases saved with
    | error error => exact htree
    | ok done => simpa [hexports, exportAll, removeIntermediate, hkept] using htree

/-- **A run that would need the outline as an intermediate is refused** before it touches
anything, unless the path of the outline leads to an empty place. -/
theorem refused_of_shown (houtline : request.outline = false) (hexports : request.exports ≠ [])
    (hshown : ∀ behind, tree.leads true request.outlinePath = some behind →
      tree.find? behind ≠ none) (materials : Materials σ) (state : σ) :
    ∃ error, run request materials tree state = (.error error, {}, tree, state) := by
  have hneeds := Request.needsOutline_of_exports hexports
  have hintermediate : request.outlineIsIntermediate = true := by
    simp [Request.outlineIsIntermediate, houtline, hneeds]
  cases hcheck : check request tree with
  | error error => exact ⟨error, run_of_check_error hcheck materials state⟩
  | ok passed =>
    have hmissing := (check_eq_ok_iff.mp hcheck).2 hintermediate
    have hstart : ∃ error, Outputs.start request materials.header tree = .error error := by
      cases hcreate : tree.create request.outlinePath with
      | error fault => exact ⟨_, by simp only [Outputs.start, hneeds, hcreate, if_true]; rfl⟩
      | ok result =>
        have hleads := (Tree.create_cases hcreate).1
        obtain ⟨entry, hfind⟩ := Option.ne_none_iff_exists'.mp (hshown result.1 hleads)
        have hlook := Tree.look_eq_some_iff.mpr ⟨hleads, hfind⟩
        cases hmissing.symm.trans (Tree.inspect_eq_ok hlook)
    obtain ⟨error, hstart⟩ := hstart
    unfold run
    split
    · rename_i herror
      cases hcheck.symm.trans herror
    · exact ⟨_, rfl⟩
    · simp only [hstart]
      exact ⟨_, rfl⟩

end Run

/-- **A run that is not asked for an outline spares the one that is there**, however it ends and
whatever its sources, its input and its formatter are; when documents are wanted, it is refused
before anything is touched. Two arrangements are excepted. A wanted document and a link that
leads to an empty place; and a wanted catalog whose path leads to the outline, or below it. -/
theorem run_spares_outline {σ : Type} {request : Request} {tree : Tree} {location : Location}
    {entry : Files.Entry} (houtline : request.outline = false)
    (hthere : tree.look false request.outlinePath = some (location, entry))
    (hlink : request.exports ≠ [] → ∀ target, entry = .link target →
      ∀ behind, tree.leads true request.outlinePath = some behind → tree.find? behind ≠ none)
    (hcatalog : request.exports = [] → request.catalog = true →
      ∀ place, tree.leads true request.catalogPath = some place →
        ¬ tree.Covers request.outlinePath place)
    (materials : Run.Materials σ) (state : σ) :
    (run request materials tree state).2.2.1.look false request.outlinePath =
        some (location, entry) ∧
      Run.Spared request.outlinePath tree (run request materials tree state).2.2.1 ∧
      (request.exports ≠ [] →
        ∃ error, run request materials tree state = (.error error, {}, tree, state)) := by
  have hrefused : request.exports ≠ [] →
      ∃ error, run request materials tree state = (.error error, {}, tree, state) := by
    intro hexports
    refine Run.refused_of_shown houtline hexports (fun behind hbehind => ?_) materials state
    by_cases hentry : ∃ target, entry = .link target
    · obtain ⟨target, htarget⟩ := hentry
      exact hlink hexports target htarget behind hbehind
    · have hleads := Tree.leads_true_of_look request.outlinePath_namesFile hthere
        fun target htarget => hentry ⟨target, htarget⟩
      obtain rfl := Option.some.inj (hbehind.symm.trans hleads)
      simp [(Tree.look_eq_some_iff.mp hthere).2]
  have hspared : Run.Spared request.outlinePath tree
      (run request materials tree state).2.2.1 := by
    by_cases hexports : request.exports = []
    · have hneeds : request.needsOutline = false := by
        simp [Request.needsOutline_eq, houtline, hexports]
      rcases Run.tree_of_no_outline hneeds materials state with hsame | ⟨hwanted, text, hsaved⟩
      · rw [hsame]
        exact .refl request.outlinePath tree
      · rw [hsaved]
        rcases tree.save_sameBut request.catalogPath text with hsame | ⟨place, hleads, hsame⟩
        · rw [hsame]
          exact .refl request.outlinePath tree
        · exact .of_sameBut request.outlinePath_namesFile hsame
            (hcatalog hexports hwanted place hleads)
    · obtain ⟨error, hrun⟩ := hrefused hexports
      rw [hrun]
      exact .refl request.outlinePath tree
  exact ⟨(hspared.look false).trans hthere, hspared, hrefused⟩

/-! ### A link to nothing, and a catalog in the place of the outline -/

namespace Run.Bystander

def source : Bytes := utf8 "\"\"\"one\"\"\""

/-- A link to nothing in the place of the outline. -/
def dangling : Tree where
  entries := [([utf8 "a.py"], .file source false), ([utf8 "x.org"], .link (utf8 "gone"))]

/-- An outline of somebody's, and a link to it in the place of the catalog. -/
def shared : Tree where
  entries := [([utf8 "a.py"], .file source false), ([utf8 "x.org"], .file (utf8 "mine") false),
    ([utf8 "x.pot"], .link (utf8 "x.org"))]

/-- A link to a directory in the place of the outline. -/
def folder : Tree where
  entries := [([utf8 "a.py"], .file source false), ([utf8 "notes"], .directory),
    ([utf8 "notes", utf8 "mine"], .file (utf8 "mine") false),
    ([utf8 "x.org"], .link (utf8 "notes"))]

def catalog : Request := { stem := utf8 "x", catalog := true }

def document : Request := { stem := utf8 "x", html := true }

/-- The formatter touches nothing. -/
def materials : Materials Unit where
  sources := [utf8 "a.py"]
  input? := none
  header := Settings.default.catalog
  formatter? := some fun _ _ world => (.ok (), world)

end Run.Bystander

open Run.Bystander in
/-- A catalog can be made beside a link to nothing, which stays one; and no document is made where
the outline would be a directory. -/
theorem run_spares_outline_linked :
    ((run catalog materials dangling ()).1.isOk = true ∧
      Run.Spared catalog.outlinePath dangling (run catalog materials dangling ()).2.2.1) ∧
    ∃ error, run document materials folder () = (.error error, {}, folder, ()) := by
  have hdangling : dangling.look false catalog.outlinePath =
      some ([utf8 "x.org"], .link (utf8 "gone")) := by decide +kernel
  have hfolder : folder.look false document.outlinePath =
      some ([utf8 "x.org"], .link (utf8 "notes")) := by decide +kernel
  have hoff : ∀ place, dangling.leads true catalog.catalogPath = some place →
      ¬ dangling.Covers catalog.outlinePath place := by
    intro place hplace
    obtain rfl : [utf8 "x.pot"] = place :=
      Option.some.inj (Eq.trans (by decide +kernel) hplace)
    rintro ⟨through, shown, hleads, hbelow⟩
    have hshown : [utf8 "x.org"] = shown ∨ [utf8 "gone"] = shown := by
      cases through
      · exact .inl (Option.some.inj (Eq.trans (by decide +kernel) hleads))
      · exact .inr (Option.some.inj (Eq.trans (by decide +kernel) hleads))
    rcases hshown with rfl | rfl <;> exact absurd hbelow (by decide +kernel)
  have hbehind : ∀ behind, folder.leads true document.outlinePath = some behind →
      folder.find? behind ≠ none := by
    intro behind hleads
    obtain rfl : [utf8 "notes"] = behind :=
      Option.some.inj (Eq.trans (by decide +kernel) hleads)
    decide +kernel
  obtain ⟨-, hspared, -⟩ := run_spares_outline rfl hdangling (fun h => absurd rfl h)
    (fun _ _ => hoff) materials ()
  obtain ⟨-, -, hrefused⟩ := run_spares_outline rfl hfolder (fun _ _ _ => hbehind)
    (fun h => absurd h (by decide)) materials ()
  exact ⟨⟨by decide +kernel, hspared⟩, hrefused (by decide)⟩

open Run.Bystander in
/-- A document costs the link to nothing, which is removed after a file was made behind it; and a
catalog costs the outline that its path leads to. -/
theorem run_costs_outline :
    (dangling.look false document.outlinePath = some ([utf8 "x.org"], .link (utf8 "gone")) ∧
      (run document materials dangling ()).1.isOk = true ∧
      (run document materials dangling ()).2.2.1.entries =
        [([utf8 "a.py"], .file source false), ([utf8 "gone"], .file (utf8 "one") false)]) ∧
    shared.look false catalog.outlinePath =
        some ([utf8 "x.org"], .file (utf8 "mine") false) ∧
      (run catalog materials shared ()).1.isOk = true ∧
      (run catalog materials shared ()).2.2.1.look false catalog.outlinePath ≠
        shared.look false catalog.outlinePath :=
  ⟨⟨by decide +kernel, by decide +kernel, by decide +kernel⟩, by decide +kernel,
    by decide +kernel, by decide +kernel⟩

end DocHarvest
