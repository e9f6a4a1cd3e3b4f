import DocHarvest.Outputs
import DocHarvest.Proofs.Files.Places

/-!
# What the Outputs Hold

The outputs of a request hold what was added to them: the outline has the texts one after
another, and the catalog is the one that collects the strings in order. Opening the outputs
makes them hold nothing, adding a string keeps the invariant, and finishing turns what they hold
into files.

## Main definitions

* `Outputs.Holding` — the open outputs hold the given strings, and nothing else has changed.
* `Outputs.Finished` — the outputs are files that hold the given strings.

## Main results

* `Outputs.holding_start`, `Outputs.Holding.add`, `Outputs.Holding.addAll` — open outputs hold
  what was added to them.
* `Outputs.Holding.finish` — finished outputs are files with that content.
-/

namespace DocHarvest

open Files (Tree Location Path)

namespace Request

/-- The path of the outline can name a file. -/
theorem outlinePath_namesFile (request : Request) : Path.NamesFile request.outlinePath :=
  Path.namesFile_append (by decide) (by decide)

/-- The path of the catalog can name a file. -/
theorem catalogPath_namesFile (request : Request) : Path.NamesFile request.catalogPath :=
  Path.namesFile_append (by decide) (by decide)

/-- An outline is needed when it is wanted itself or a document is. -/
theorem needsOutline_eq (request : Request) :
    request.needsOutline = (request.outline || !request.exports.isEmpty) := by
  unfold needsOutline exports
  cases request.outline <;> cases request.html <;> cases request.pdf <;> rfl

/-- A document needs an outline. -/
theorem needsOutline_of_exports {request : Request} (h : request.exports ≠ []) :
    request.needsOutline = true := by
  simp [needsOutline_eq, h]

/-- An intermediate outline is needed. -/
theorem needsOutline_of_intermediate {request : Request}
    (h : request.outlineIsIntermediate = true) : request.needsOutline = true := by
  simp only [outlineIsIntermediate, Bool.and_eq_true] at h
  exact h.2

end Request

namespace Outputs

/-- **The open outputs of a request hold documentation strings**: the outline has their texts and
the catalog collects them, as far as they were asked for. Between the tree in which the outputs
were opened and the present one, nothing but the outline has changed. -/
structure Holding (request : Request) (header : CatalogHeader) (tree : Tree)
    (held : List DocString) (outputs : Outputs) (tree' : Tree) : Prop where
  asked : outputs.request = request
  noOutline : request.needsOutline = false → outputs.outline? = none ∧ tree' = tree
  outline : request.needsOutline = true → ∃ location executable,
    outputs.outline? = some location ∧ tree.leads true request.outlinePath = some location ∧
      tree'.find? location = some (.file (held.flatMap DocString.text) executable) ∧
      Tree.SameBut [location] tree tree'
  noCatalog : request.catalog = false → outputs.catalog? = none
  catalog : request.catalog = true → ∃ catalog,
    outputs.catalog? = some catalog ∧ held.foldlM Catalog.add { header } = .ok catalog

/-- Outputs that were just opened hold nothing. -/
theorem holding_start {request : Request} {header : CatalogHeader} {tree opened : Tree}
    {outputs : Outputs}
    (hkeeps : request.needsOutline = true → tree.KeepsWrites request.outlinePath)
    (h : start request header tree = .ok (outputs, opened)) :
    Holding request header tree [] outputs opened := by
  unfold start at h
  cases hneeds : request.needsOutline with
  | false =>
    simp only [hneeds, Bool.false_eq_true, if_false, Except.ok.injEq, Prod.mk.injEq] at h
    obtain ⟨rfl, rfl⟩ := h
    exact ⟨rfl, fun _ => ⟨rfl, rfl⟩, fun h => absurd h (by simp [hneeds]),
      fun hc => by simp [hc], fun hc => ⟨_, by simp [hc], rfl⟩⟩
  | true =>
    cases hcreate : tree.create request.outlinePath with
    | error fault => simp [hneeds, hcreate] at h
    | ok result =>
      obtain ⟨location, created⟩ := result
      obtain ⟨hleads, hleaf, executable, rfl⟩ := Tree.create_ok (hkeeps hneeds) hcreate
      simp only [hneeds, hcreate, if_true, Except.ok.injEq, Prod.mk.injEq] at h
      obtain ⟨rfl, rfl⟩ := h
      exact ⟨rfl, fun h => absurd h (by simp [hneeds]),
        fun _ => ⟨location, executable, rfl, hleads,
          Tree.find?_set_file hleaf [] executable, tree.sameBut_set hleaf [] executable⟩,
        fun hc => by simp [hc], fun hc => ⟨_, by simp [hc], rfl⟩⟩

namespace Holding

variable {request : Request} {header : CatalogHeader} {tree tree' tree'' : Tree}
  {held : List DocString} {outputs outputs' : Outputs}

/-- The outline of outputs that hold strings can be written on, and has changed by that alone. -/
theorem writeOutline (h : Holding request header tree held outputs tree') {d : DocString}
    (hwrite : outputs.writeOutline d.text tree' = .ok tree'') :
    (request.needsOutline = false → tree'' = tree) ∧
      (request.needsOutline = true → ∃ location executable,
        outputs.outline? = some location ∧ tree.leads true request.outlinePath = some location ∧
          tree''.find? location =
            some (.file ((held ++ [d]).flatMap DocString.text) executable) ∧
          Tree.SameBut [location] tree tree'') := by
  unfold Outputs.writeOutline at hwrite
  constructor
  · intro hneeds
    obtain ⟨hnone, rfl⟩ := h.noOutline hneeds
    simp only [hnone, Except.ok.injEq] at hwrite
    exact hwrite.symm
  · intro hneeds
    obtain ⟨location, executable, hsome, hleads, hfind, hsame⟩ := h.outline hneeds
    simp only [hsome, Tree.append_file hfind, Except.ok.injEq] at hwrite
    subst hwrite
    have hleaf := Tree.way?_file hfind
    refine ⟨location, executable, hsome, hleads, ?_, ?_⟩
    · rw [Tree.find?_set_file hleaf, List.flatMap_append, List.flatMap_singleton]
    · exact (hsame.trans (Tree.sameBut_set _ hleaf _ _)).mono (by simp)

/-- One string more is held after it was added. -/
theorem add (h : Holding request header tree held outputs tree') {d : DocString}
    (hadd : outputs.add d tree' = (.ok (), outputs', tree'')) :
    Holding request header tree (held ++ [d]) outputs' tree'' := by
  unfold Outputs.add at hadd
  cases hwrite : outputs.writeOutline d.text tree' with
  | error error => simp [hwrite] at hadd
  | ok written =>
  obtain ⟨hnoOutline, houtline⟩ := h.writeOutline hwrite
  cases hcatalog : request.catalog with
  | false =>
    have hnone := h.noCatalog hcatalog
    simp only [hwrite, hnone, Prod.mk.injEq, true_and] at hadd
    obtain ⟨rfl, rfl⟩ := hadd
    exact ⟨h.asked, fun hn => ⟨(h.noOutline hn).1, hnoOutline hn⟩, houtline,
      fun _ => hnone, fun hc => absurd hc (by simp [hcatalog])⟩
  | true =>
    obtain ⟨catalog, hsome, hheld⟩ := h.catalog hcatalog
    cases hlarger : catalog.add d with
    | error refusal => simp [hwrite, hsome, hlarger] at hadd
    | ok larger =>
      simp only [hwrite, hsome, hlarger, Prod.mk.injEq, true_and] at hadd
      obtain ⟨rfl, rfl⟩ := hadd
      have hheld' : (held ++ [d]).foldlM Catalog.add { header } = .ok larger := by
        simp [List.foldlM_append, hheld, hlarger, bind, Except.bind, pure, Except.pure]
      exact ⟨h.asked, fun hn => ⟨(h.noOutline hn).1, hnoOutline hn⟩, houtline,
        fun hc => absurd hc (by simp [hcatalog]), fun _ => ⟨larger, rfl, hheld'⟩⟩

/-- **Open outputs hold what was added to them.** -/
theorem addAll {ds : List DocString} (h : Holding request header tree held outputs tree')
    (hadd : outputs.addAll ds tree' = (.ok (), outputs', tree'')) :
    Holding request header tree (held ++ ds) outputs' tree'' := by
  induction ds generalizing held outputs tree' with
  | nil =>
    simp only [Outputs.addAll, Prod.mk.injEq, true_and] at hadd
    obtain ⟨rfl, rfl⟩ := hadd
    rwa [List.append_nil]
  | cons d others ih =>
    unfold Outputs.addAll at hadd
    rcases hstep : outputs.add d tree' with ⟨result, next, written⟩
    cases result with
    | error error => simp [hstep] at hadd
    | ok done =>
      simp only [hstep] at hadd
      have hmore := ih (h.add hstep) hadd
      rwa [List.append_assoc] at hmore

end Holding

/-! ### Finished outputs -/

/-- **The outputs of a request are files**: the outline has the texts of the given strings, and
the catalog is the one that collects them, as far as they were asked for. Nothing but these
files has changed. -/
structure Finished (request : Request) (header : CatalogHeader) (tree : Tree)
    (held : List DocString) (finished : Tree) : Prop where
  outline : request.needsOutline = true → ∃ location executable,
    finished.look true request.outlinePath =
      some (location, .file (held.flatMap DocString.text) executable)
  catalog : request.catalog = true → ∃ catalog location executable,
    held.foldlM Catalog.add { header } = .ok catalog ∧
      finished.look true request.catalogPath = some (location, .file catalog.text executable)
  same : ∃ places, Tree.SameBut places tree finished ∧ ∀ location ∈ places,
    request.needsOutline = true ∧ tree.leads true request.outlinePath = some location ∨
      request.catalog = true ∧ tree.leads true request.catalogPath = some location

/-- The outline alone, before the catalog is saved. -/
theorem Holding.outline_look {request : Request} {header : CatalogHeader} {tree tree' : Tree}
    {held : List DocString} {outputs : Outputs}
    (h : Holding request header tree held outputs tree') :
    (request.needsOutline = true → ∃ location executable,
      tree'.look true request.outlinePath =
        some (location, .file (held.flatMap DocString.text) executable)) ∧
    ∃ places, Tree.SameBut places tree tree' ∧ ∀ location ∈ places,
      request.needsOutline = true ∧ tree.leads true request.outlinePath = some location := by
  cases hneeds : request.needsOutline with
  | false =>
    obtain ⟨-, rfl⟩ := h.noOutline hneeds
    exact ⟨by simp, [], .refl _, by simp⟩
  | true =>
    obtain ⟨location, executable, -, hleads, hfind, hsame⟩ := h.outline hneeds
    refine ⟨fun _ => ⟨location, executable, ?_⟩, [location], hsame, by simpa using hleads⟩
    rw [Tree.look_eq_some_iff, hsame.leads_eq request.outlinePath_namesFile]
    exact ⟨hleads, hfind⟩

/-- **Finished outputs are files with the content that the open outputs held.** -/
theorem Holding.finish {request : Request} {header : CatalogHeader}
    {tree tree' finished : Tree} {held : List DocString} {outputs outputs' : Outputs}
    (h : Holding request header tree held outputs tree')
    (hapart : tree.Apart request.outlinePath request.catalogPath)
    (hkeeps : request.catalog = true → tree.KeepsWrites request.catalogPath)
    (hfinish : outputs.finish tree' = (.ok (), outputs', finished)) :
    Finished request header tree held finished := by
  obtain ⟨houtline, places, hsame, hplaces⟩ := h.outline_look
  unfold Outputs.finish at hfinish
  cases hcatalog : request.catalog with
  | false =>
    simp only [h.noCatalog hcatalog, Prod.mk.injEq, true_and] at hfinish
    obtain ⟨-, rfl⟩ := hfinish
    exact ⟨houtline, by simp [hcatalog], places, hsame, fun l hl => .inl (hplaces l hl)⟩
  | true =>
    obtain ⟨catalog, hsome, hheld⟩ := h.catalog hcatalog
    rcases hsaved : tree'.save request.catalogPath catalog.text with ⟨result, saved⟩
    cases result with
    | error fault => simp [hsome, h.asked, Catalog.save, hsaved] at hfinish
    | ok done =>
    simp only [hsome, h.asked, Catalog.save, hsaved, Prod.mk.injEq, true_and] at hfinish
    obtain ⟨-, rfl⟩ := hfinish
    have helsewhere : ∀ l ∈ places, tree.leads true request.catalogPath ≠ some l :=
      fun l hl => hapart.ne (hplaces l hl).2
    have hkeeps' : tree'.KeepsWrites request.catalogPath := by
      rw [Tree.KeepsWrites, hsame.look_eq request.catalogPath_namesFile helsewhere]
      exact hkeeps hcatalog
    obtain ⟨location, executable, hleads, hfind, hsaved'⟩ := Tree.save_ok hkeeps' hsaved
    have hleads' : tree.leads true request.catalogPath = some location := by
      rw [← hsame.leads_eq request.catalogPath_namesFile, hleads]
    refine ⟨fun hneeds => ?_, fun _ => ⟨catalog, location, executable, hheld, ?_⟩,
      places ++ [location], hsame.trans hsaved', ?_⟩
    · obtain ⟨l, x, hlook⟩ := houtline hneeds
      refine ⟨l, x, ?_⟩
      rw [hsaved'.look_eq request.outlinePath_namesFile, hlook]
      intro l' hl' houtline
      rw [List.mem_singleton.mp hl', hsame.leads_eq request.outlinePath_namesFile] at houtline
      exact hapart.ne houtline hleads'
    · rw [Tree.look_eq_some_iff, hsaved'.leads_eq request.catalogPath_namesFile]
      exact ⟨hleads, hfind⟩
    · intro l hl
      rcases List.mem_append.mp hl with hl | hl
      · exact .inl (hplaces l hl)
      · exact .inr ⟨hcatalog, by rw [List.mem_singleton.mp hl]; exact hleads'⟩

end Outputs

end DocHarvest
