import DocHarvest.Proofs.Outputs.Contents
import DocHarvest.Run

/-!
# What Is Extracted from the Sources

The outline grows while sources are read. As long as no source is the outline itself, every
source is read as it was before the run, and the outputs receive the documentation strings of
all sources in order.

## Main definitions

* `Run.sourceAt` — the source that a path names in a tree.
* `Run.Materials.docStrings` — the documentation strings of all sources of a run.

## Main results

* `Outputs.Holding.extractFile` — one source is read as it was when the outputs were opened.
* `Outputs.Holding.extractAll` — the outputs hold the strings of all sources, and the tally
  counts them.
-/

namespace DocHarvest

open Files (Tree Location Path)

namespace Run

/-- The source that a path names in a tree; it is empty when it cannot be opened or has no end. -/
def sourceAt (tree : Tree) (path : Bytes) : Source :=
  let (bytes, ending) := ((tree.inspect path).toOption.bind (supply? path)).getD ([], .complete)
  { name := path, bytes, ending }

/-- The documentation strings in the file at a path. -/
def docStringsAt (tree : Tree) (path : Bytes) : List DocString :=
  (sourceAt tree path).docStrings.1

/-- The documentation strings of all sources in order: of the files, or of standard input when
there are none. -/
def Materials.docStrings {σ : Type} (materials : Materials σ) (tree : Tree) : List DocString :=
  if materials.sources.isEmpty then
    let (bytes, ending) := materials.input?.getD ([], .complete)
    (Source.docStrings { name := standardInput, bytes, ending }).1
  else materials.sources.flatMap (docStringsAt tree)

/-- A source that is read to its end has handed all its strings to the outputs. -/
theorem extract_ok {source : Source} {outputs outputs' : Outputs} {tree tree' : Tree} {n : Nat}
    (h : extract source outputs tree = (.ok n, outputs', tree')) :
    outputs.addAll source.docStrings.1 tree = (.ok (), outputs', tree') ∧
      n = source.docStrings.1.length := by
  unfold extract at h
  rcases hfound : source.docStrings with ⟨found, scanError?⟩
  rcases hadd : outputs.addAll found tree with ⟨result, next, written⟩
  cases result <;> cases scanError? <;> simp_all

end Run

namespace Outputs.Holding

variable {request : Request} {header : CatalogHeader} {tree tree' tree'' : Tree}
  {held : List DocString} {outputs outputs' : Outputs}

/-- A source that is not the outline is opened as it could have been before. -/
theorem locate_source (h : Holding request header tree held outputs tree') {path : Bytes}
    (hpath : ¬ tree.SameFile path request.outlinePath) {location : Location}
    {entry : Files.Entry} (hlocate : tree'.locate path = .ok (location, entry)) :
    tree.locate path = .ok (location, entry) ∧ outputs.outline? ≠ some location := by
  cases hneeds : request.needsOutline with
  | false =>
    obtain ⟨hnone, rfl⟩ := h.noOutline hneeds
    exact ⟨hlocate, by simp [hnone]⟩
  | true =>
    obtain ⟨outline, executable, hsome, hleads, hfind, hsame⟩ := h.outline hneeds
    have hne : location ≠ outline := by
      rintro rfl
      obtain ⟨hled, hfound⟩ := Tree.look_eq_some_iff.mp (Tree.locate_eq_ok_iff.mp hlocate)
      have hentry : entry ≠ .directory := by
        rw [hfind] at hfound
        exact fun hdir => by simp [hdir] at hfound
      rw [hsame.leads_eq (Tree.namesFile_of_locate hlocate hentry)] at hled
      exact hpath ⟨by simp [hled], hled.trans hleads.symm⟩
    refine ⟨hsame.locate_eq hlocate (by simpa using hne), ?_⟩
    rw [hsome]
    exact fun heq => hne (Option.some.inj heq).symm

/-- One source is read as it was when the outputs were opened. -/
theorem extractFile (h : Holding request header tree held outputs tree') {path : Bytes}
    (hpath : ¬ tree.SameFile path request.outlinePath) {n : Nat}
    (hextract : Run.extractFile path outputs tree' = (.ok n, outputs', tree'')) :
    Holding request header tree (held ++ Run.docStringsAt tree path) outputs' tree'' ∧
      n = (Run.docStringsAt tree path).length := by
  unfold Run.extractFile at hextract
  cases hlocate : tree'.locate path with
  | error fault => simp [hlocate] at hextract
  | ok result =>
  obtain ⟨location, entry⟩ := result
  obtain ⟨hbefore, hother⟩ := h.locate_source hpath hlocate
  have hinspect := Tree.inspect_eq_ok (Tree.locate_eq_ok_iff.mp hbefore)
  cases hsupply : Run.supply? path entry with
  | none => simp [hlocate, hsupply] at hextract
  | some supplied =>
    obtain ⟨bytes, ending⟩ := supplied
    have hsource : Run.sourceAt tree path = { name := path, bytes, ending } := by
      simp [Run.sourceAt, hinspect, Except.toOption, hsupply]
    simp only [hlocate, hsupply, hother, if_false] at hextract
    rw [← hsource] at hextract
    obtain ⟨hadd, hn⟩ := Run.extract_ok hextract
    exact ⟨h.addAll hadd, hn⟩

/-- Files are read in order, each as it was when the outputs were opened. -/
theorem extractFiles {paths : List Bytes} {tally tally' : Tally}
    (h : Holding request header tree held outputs tree')
    (hpaths : ∀ path ∈ paths, ¬ tree.SameFile path request.outlinePath)
    (hextract : Run.extractFiles paths tally outputs tree' =
      (.ok (), tally', outputs', tree'')) :
    Holding request header tree (held ++ paths.flatMap (Run.docStringsAt tree)) outputs' tree'' ∧
      tally' = ⟨tally.sources + paths.length,
        tally.units + (paths.flatMap (Run.docStringsAt tree)).length, tally.exports⟩ := by
  induction paths generalizing held outputs tree' tally with
  | nil =>
    simp only [Run.extractFiles, Prod.mk.injEq, true_and] at hextract
    obtain ⟨rfl, rfl, rfl⟩ := hextract
    exact ⟨by simpa using h, rfl⟩
  | cons path others ih =>
    unfold Run.extractFiles at hextract
    rcases hfile : Run.extractFile path outputs tree' with ⟨result, next, written⟩
    cases result with
    | error error => simp [hfile] at hextract
    | ok n =>
      simp only [hfile] at hextract
      obtain ⟨hpath, hothers⟩ := List.forall_mem_cons.mp hpaths
      obtain ⟨hnext, rfl⟩ := h.extractFile hpath hfile
      obtain ⟨hholding, rfl⟩ := ih hnext hothers hextract
      rw [List.append_assoc] at hholding
      refine ⟨hholding, ?_⟩
      simp only [List.flatMap_cons, List.length_append, List.length_cons, Tally.mk.injEq, and_true]
      exact ⟨by omega, by omega⟩

/-- **The outputs hold the strings of all sources, and the tally counts them.** -/
theorem extractAll {σ : Type} {materials : Run.Materials σ} {tally : Tally}
    (h : Holding request header tree [] outputs tree')
    (hsources : ∀ path ∈ materials.sources, ¬ tree.SameFile path request.outlinePath)
    (hextract : Run.extractAll materials.sources materials.input? outputs tree' =
      (.ok (), tally, outputs', tree'')) :
    Holding request header tree (materials.docStrings tree) outputs' tree'' ∧
      tally = ⟨max 1 materials.sources.length, (materials.docStrings tree).length, 0⟩ := by
  unfold Run.extractAll at hextract
  unfold Run.Materials.docStrings
  cases hempty : materials.sources with
  | nil =>
    simp only [hempty, List.isEmpty_nil, if_true] at hextract ⊢
    unfold Run.extractInput at hextract
    cases hinput : materials.input? with
    | none => simp [hinput] at hextract
    | some supplied =>
      obtain ⟨bytes, ending⟩ := supplied
      rcases hread : Run.extract { name := Run.standardInput, bytes, ending } outputs tree' with
        ⟨result, next, written⟩
      cases result with
      | error error => simp [hinput, hread] at hextract
      | ok n =>
        simp only [hinput, hread, Prod.mk.injEq, true_and] at hextract
        obtain ⟨rfl, rfl, rfl⟩ := hextract
        obtain ⟨hadd, rfl⟩ := Run.extract_ok hread
        exact ⟨h.addAll hadd, rfl⟩
  | cons path others =>
    simp only [hempty, List.isEmpty_cons, Bool.false_eq_true, if_false] at hextract ⊢
    obtain ⟨hholding, rfl⟩ := h.extractFiles (hempty ▸ hsources) hextract
    refine ⟨hholding, ?_⟩
    simp only [List.length_cons, Tally.mk.injEq, Nat.zero_add, and_true]
    omega

end Outputs.Holding

end DocHarvest
