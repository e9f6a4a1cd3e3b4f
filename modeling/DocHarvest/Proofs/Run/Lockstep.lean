import DocHarvest.Proofs.Files.Layout
import DocHarvest.Proofs.Outputs.Progress
import DocHarvest.Proofs.Run.Exports

/-!
# Two Runs in Step

Two runs of the same request are followed side by side, up to the moment when their outputs are
finished and documents can be made. The files of the two runs may differ, and even the outlines may
be different files. But what a run does to its outputs depends only on what it reads from its
sources, on what stands in the places of the outputs, directories, links and devices, and on nothing
else. So if this is the same in both runs when they begin, then they stay in step: a step that
succeeds in one of them succeeds in the other and writes the same.

## Main definitions

* `Outputs.onto` — the same outputs with another outline.
* `Run.InStep`, `Run.Finished` — the files of two runs, side by side.
* `Run.Prepared` — two runs that can go the same way.

## Main results

* `Run.start_again`, `Run.extractAll_again`, `Run.finish_again` — the stages of a run have the same
  effect.
* `Run.Prepared.finished_again` — both runs finish their outputs.
-/

namespace DocHarvest

open Files (Tree Location Path)

/-- The same outputs with another outline. -/
def Outputs.onto (outputs : Outputs) (outline? : Option Location) : Outputs :=
  { outputs with outline? }

/-- The other outline is the one that is open. -/
@[simp]
theorem Outputs.outline?_onto (outputs : Outputs) (outline? : Option Location) :
    (outputs.onto outline?).outline? = outline? := rfl

/-- The request is the same. -/
@[simp]
theorem Outputs.request_onto (outputs : Outputs) (outline? : Option Location) :
    (outputs.onto outline?).request = outputs.request := rfl

namespace Run

/-- The outputs of a request are open. -/
structure IsOpen (request : Request) (outline? : Option Location) (outputs : Outputs) : Prop where
  asked : outputs.request = request
  outline : outputs.outline? = outline?
  catalog : outputs.catalog?.isSome = request.catalog

/-- **The files of two runs while they extract**, side by side: in each of them, nothing but the
outline was written, and the outlines are the same. -/
structure InStep (outline? outline?' : Option Location) (start start' now now' : Tree) : Prop where
  first : Tree.WrittenAt outline?.toList start now
  second : Tree.WrittenAt outline?'.toList start' now'
  outline : Option.Rel (fun location location' =>
    now'.find? location' = now.find? location ∧ now.find? location ≠ none) outline? outline?'

/-- Two outcomes with open outputs, side by side. -/
structure Matches {α : Type} (request : Request) (outline? outline?' : Option Location)
    (start start' : Tree) (outcome outcome' : α × Outputs × Tree) : Prop where
  result : outcome'.1 = outcome.1
  outputs : outcome'.2.1 = outcome.2.1.onto outline?'
  opened : IsOpen request outline? outcome.2.1
  files : InStep outline? outline?' start start' outcome.2.2 outcome'.2.2

/-- **Two runs find the same sources** when they begin. One that is the outline itself in the
first run is so in the second. -/
structure SameSources (sources : List Bytes) (outline? outline?' : Option Location)
    (start start' : Tree) : Prop where
  plain : ∀ location, outline? = some location → start.find? location ≠ some .directory
  own : ∀ path ∈ sources, Path.NamesFile path → start.leads true path = outline? →
    start'.leads true path = outline?'
  others : ∀ path ∈ sources, ∀ location entry, start.locate path = .ok (location, entry) →
    outline? ≠ some location →
      start'.locate path = .ok (location, entry) ∧ outline?' ≠ some location

section Extraction

variable {request : Request} {sources : List Bytes} {outline? outline?' : Option Location}
  {start start' now now' : Tree} {outputs : Outputs}

/-- A text reaches both outlines. -/
theorem InStep.grown (h : InStep outline? outline?' start start' now now') (text : Bytes) :
    InStep outline? outline?' start start' (Outputs.grown outline? text now)
      (Outputs.grown outline?' text now') := by
  obtain ⟨hfirst, hsecond, houtline⟩ := h
  cases houtline with
  | none => exact ⟨hfirst, hsecond, .none⟩
  | @some location location' hsame =>
    refine ⟨hfirst.trans_self (now.writtenAt_written location text),
      hsecond.trans_self (now'.writtenAt_written location' text),
      .some ⟨Tree.find?_written_eq hsame.1 text, ?_⟩⟩
    rcases now.file_or_other location with ⟨content, executable, hfound⟩ | hother
    · simp [Outputs.grown, Tree.find?_written_file hfound]
    · simpa only [Outputs.grown, Tree.written_other hother] using hsame.2

/-- A text is written to both outlines or to none. -/
theorem InStep.writeOutline (h : InStep outline? outline?' start start' now now')
    (hopen : IsOpen request outline? outputs) (text : Bytes) :
    (∃ error, outputs.writeOutline text now = .error error ∧
      (outputs.onto outline?').writeOutline text now' = .error error) ∨
    outputs.writeOutline text now = .ok (Outputs.grown outline? text now) ∧
      (outputs.onto outline?').writeOutline text now' =
        .ok (Outputs.grown outline?' text now') := by
  unfold Outputs.writeOutline
  simp only [hopen.outline, Outputs.outline?_onto, Outputs.request_onto]
  obtain ⟨-, -, houtline⟩ := h
  cases houtline with
  | none => exact .inr ⟨rfl, rfl⟩
  | @some location location' hsame =>
    have hnoSpace : ∀ {tree : Tree} {outline : Location}, tree.find? outline = some .full →
        tree.append outline text = .error .noSpace := by
      intro tree outline hfull
      simp only [Tree.append, hfull]
    by_cases hfull : now.find? location = some .full
    · let path := outputs.request.outlinePath
      exact .inl ⟨.outlineNotWritten path (.file .writing path .noSpace),
        by simp only [hnoSpace hfull, path], by simp only [hnoSpace (hsame.1.trans hfull), path]⟩
    · have hfull' : now'.find? location' ≠ some .full := hsame.1 ▸ hfull
      exact .inr ⟨by simp only [Tree.append_eq_written hfull]; rfl,
        by simp only [Tree.append_eq_written hfull']; rfl⟩

/-- A string is added in both runs, with the same outcome. -/
theorem InStep.add (h : InStep outline? outline?' start start' now now')
    (hopen : IsOpen request outline? outputs) (d : DocString) :
    Matches request outline? outline?' start start' (outputs.add d now)
      ((outputs.onto outline?').add d now') := by
  unfold Outputs.add
  rcases h.writeOutline hopen d.text with ⟨error, hwrite, hwrite'⟩ | ⟨hwrite, hwrite'⟩
  · rw [hwrite, hwrite']
    exact ⟨rfl, rfl, hopen, h⟩
  · rw [hwrite, hwrite']
    obtain ⟨asked, outline?, catalog?⟩ := outputs
    cases catalog? with
    | none => exact ⟨rfl, rfl, hopen, h.grown d.text⟩
    | some catalog =>
      cases hadd : catalog.add d with
      | error refusal =>
        simp only [Outputs.onto, hadd]
        exact ⟨rfl, rfl, hopen, h.grown d.text⟩
      | ok larger =>
        simp only [Outputs.onto, hadd]
        exact ⟨rfl, rfl, ⟨hopen.asked, hopen.outline, hopen.catalog⟩, h.grown d.text⟩

/-- Strings are added in both runs, with the same outcome. -/
theorem InStep.addAll (h : InStep outline? outline?' start start' now now')
    (hopen : IsOpen request outline? outputs) (ds : List DocString) :
    Matches request outline? outline?' start start' (outputs.addAll ds now)
      ((outputs.onto outline?').addAll ds now') := by
  induction ds generalizing outputs now now' with
  | nil => exact ⟨rfl, rfl, hopen, h⟩
  | cons d others ih =>
    obtain ⟨hresult, houtputs, hopened, hfiles⟩ := h.add hopen d
    unfold Outputs.addAll
    rcases hadd : outputs.add d now with ⟨result, next, written⟩
    rcases hadd' : (outputs.onto outline?').add d now' with
      ⟨result', next', written'⟩
    simp only [hadd, hadd'] at hresult houtputs hopened hfiles
    subst hresult houtputs
    cases result' with
    | error error => exact ⟨rfl, rfl, hopened, hfiles⟩
    | ok done => exact ih hfiles hopened

/-- A source is read in both runs, with the same outcome. -/
theorem InStep.extract (h : InStep outline? outline?' start start' now now')
    (hopen : IsOpen request outline? outputs) (source : Source) :
    Matches request outline? outline?' start start' (extract source outputs now)
      (extract source (outputs.onto outline?') now') := by
  unfold Run.extract
  rcases source.docStrings with ⟨found, scanError?⟩
  obtain ⟨hresult, houtputs, hopened, hfiles⟩ := h.addAll hopen found
  rcases hadd : outputs.addAll found now with ⟨result, next, written⟩
  rcases hadd' : (outputs.onto outline?').addAll found now' with
    ⟨result', next', written'⟩
  simp only [hadd, hadd'] at hresult houtputs hopened hfiles ⊢
  subst hresult houtputs
  cases result' with
  | error error => exact ⟨rfl, rfl, hopened, hfiles⟩
  | ok done => cases scanError? <;> exact ⟨rfl, rfl, hopened, hfiles⟩

/-- An outline that is read while it grows is so in both runs, with the same outcome. -/
theorem InStep.extractGrowing (h : InStep outline? outline?' start start' now now')
    (hopen : IsOpen request outline? outputs) (name : Bytes) (fuel : Nat)
    (scanner : Source.Scanner) (count : Nat) :
    Matches request outline? outline?' start start'
      (extractGrowing name fuel scanner count outputs now)
      (extractGrowing name fuel scanner count (outputs.onto outline?') now') := by
  induction fuel generalizing scanner count outputs now now' with
  | zero => exact ⟨rfl, rfl, hopen, h⟩
  | succ fuel ih =>
    unfold Run.extractGrowing
    rcases scanner.next .complete with ⟨error | token, after⟩
    · exact ⟨rfl, rfl, hopen, h⟩
    · simp only
      split
      · exact ⟨rfl, rfl, hopen, h⟩
      cases hfound : Source.docString? name token with
      | none => exact ih h hopen after count
      | some d =>
        obtain ⟨hresult, houtputs, hopened, hfiles⟩ := h.add hopen d
        rcases hadd : outputs.add d now with ⟨result, next, written⟩
        rcases hadd' : (outputs.onto outline?').add d now' with
          ⟨result', next', written'⟩
        simp only [hadd, hadd'] at hresult houtputs hopened hfiles ⊢
        subst hresult houtputs
        cases result' with
        | error error => exact ⟨rfl, rfl, hopened, hfiles⟩
        | ok done => exact ih hfiles hopened _ _

/-- A source is found in both runs, and is the outline in both or in none. -/
theorem InStep.locate (h : InStep outline? outline?' start start' now now')
    (hsources : SameSources sources outline? outline?' start start') {path : Bytes}
    (hpath : path ∈ sources) {location : Location} {entry : Files.Entry}
    (hlocate : now.locate path = .ok (location, entry)) :
    ∃ location', now'.locate path = .ok (location', entry) ∧
      (outline? = some location ↔ outline?' = some location') := by
  obtain ⟨hfirst, hsecond, houtline⟩ := h
  by_cases hown : outline? = some location
  · obtain ⟨hleads, hfind⟩ := Tree.look_eq_some_iff.mp (Tree.locate_eq_ok_iff.mp hlocate)
    have hentry : entry ≠ .directory := by
      rintro rfl
      have hway := Tree.way?_eq_directory.mpr hfind
      rw [hfirst.sameBut.way?] at hway
      exact hsources.plain location hown (Tree.way?_eq_directory.mp hway)
    have hfile := Tree.namesFile_of_locate hlocate hentry
    rw [hfirst.sameBut.leads_eq hfile, ← hown] at hleads
    have hleads' := hsources.own path hpath hfile hleads
    rw [← hsecond.sameBut.leads_eq hfile] at hleads'
    cases houtline with
    | none => cases hown
    | @some outline outline' hsame =>
      obtain rfl := Option.some.inj hown
      have hfound : now'.look true path = some (outline', entry) :=
        Tree.look_eq_some_iff.mpr ⟨hleads', hsame.1.trans hfind⟩
      exact ⟨outline', Tree.locate_eq_ok_iff.mpr hfound, by simp⟩
  · have hearlier := hfirst.sameBut.locate_eq hlocate (by simpa using hown)
    obtain ⟨hlocate', hother⟩ := hsources.others path hpath location entry hearlier hown
    exact ⟨location, hsecond.sameBut.symm.locate_eq hlocate' (by simpa using hother),
      by simp [hown, hother]⟩

/-- A source that was read in the first run is read in the second. -/
theorem InStep.extractFile (h : InStep outline? outline?' start start' now now')
    (hsources : SameSources sources outline? outline?' start start')
    (hopen : IsOpen request outline? outputs) {path : Bytes} (hpath : path ∈ sources) {n : Nat}
    (hok : (extractFile path outputs now).1 = .ok n) :
    Matches request outline? outline?' start start' (extractFile path outputs now)
      (extractFile path (outputs.onto outline?') now') := by
  unfold Run.extractFile at hok ⊢
  cases hlocate : now.locate path with
  | error fault => simp [hlocate] at hok
  | ok found =>
    obtain ⟨location, entry⟩ := found
    obtain ⟨location', hlocate', hown⟩ := h.locate hsources hpath hlocate
    simp only [hlocate']
    cases supply? path entry with
    | none => exact ⟨rfl, rfl, hopen, h⟩
    | some supplied =>
      obtain ⟨bytes, ending⟩ := supplied
      have hown' : outputs.outline? = some location ↔
          (outputs.onto outline?').outline? = some location' := by
        rw [hopen.outline, Outputs.outline?_onto, hown]
      simp only
      by_cases houtline : outputs.outline? = some location
      · rw [if_pos houtline, if_pos (hown'.mp houtline)]
        exact h.extractGrowing hopen path _ _ _
      · rw [if_neg houtline, if_neg (mt hown'.mpr houtline)]
        exact h.extract hopen _

/-- Sources that were read in the first run are read in the second. -/
theorem InStep.extractFiles (h : InStep outline? outline?' start start' now now')
    (hsources : SameSources sources outline? outline?' start start')
    (hopen : IsOpen request outline? outputs) {paths : List Bytes} (hpaths : paths ⊆ sources)
    {tally tally' : Tally} {outputs' : Outputs} {extracted : Tree}
    (hextract : extractFiles paths tally outputs now = (.ok (), tally', outputs', extracted)) :
    ∃ extracted', extractFiles paths tally (outputs.onto outline?') now' =
        (.ok (), tally', outputs'.onto outline?', extracted') ∧
      IsOpen request outline? outputs' ∧
      InStep outline? outline?' start start' extracted extracted' := by
  induction paths generalizing tally outputs now now' with
  | nil =>
    simp only [Run.extractFiles, Prod.mk.injEq, true_and] at hextract
    obtain ⟨rfl, rfl, rfl⟩ := hextract
    exact ⟨now', rfl, hopen, h⟩
  | cons path others ih =>
    obtain ⟨hpath, hothers⟩ := List.cons_subset.mp hpaths
    unfold Run.extractFiles at hextract ⊢
    rcases hfile : Run.extractFile path outputs now with ⟨result, next, read⟩
    cases result with
    | error error => simp [hfile] at hextract
    | ok n =>
      obtain ⟨hresult, houtputs, hopened, hfiles⟩ :=
        h.extractFile hsources hopen hpath (by rw [hfile])
      rcases hfile' : Run.extractFile path (outputs.onto outline?') now' with
        ⟨result', next', read'⟩
      simp only [hfile, hfile'] at hresult houtputs hopened hfiles hextract ⊢
      subst hresult houtputs
      exact ih hfiles hopened hothers hextract

/-- **Reading the sources again** has the same effect. -/
theorem extractAll_again {input? : Option (Bytes × Source.Ending)}
    (h : InStep outline? outline?' start start' now now')
    (hsources : SameSources sources outline? outline?' start start')
    (hopen : IsOpen request outline? outputs) {tally : Tally} {outputs' : Outputs}
    {extracted : Tree}
    (hextract : extractAll sources input? outputs now = (.ok (), tally, outputs', extracted)) :
    ∃ extracted', extractAll sources input? (outputs.onto outline?') now' =
        (.ok (), tally, outputs'.onto outline?', extracted') ∧
      IsOpen request outline? outputs' ∧
      InStep outline? outline?' start start' extracted extracted' := by
  unfold Run.extractAll at hextract ⊢
  split at hextract
  · rw [if_pos ‹_›]
    unfold Run.extractInput at hextract ⊢
    cases input? with
    | none => simp at hextract
    | some supplied =>
      obtain ⟨bytes, ending⟩ := supplied
      obtain ⟨hresult, houtputs, hopened, hfiles⟩ :=
        h.extract hopen { name := standardInput, bytes, ending }
      rcases hread : Run.extract { name := standardInput, bytes, ending } outputs now with
        ⟨result, next, read⟩
      rcases hread' : Run.extract { name := standardInput, bytes, ending }
          (outputs.onto outline?') now' with ⟨result', next', read'⟩
      simp only [hread, hread'] at hresult houtputs hopened hfiles hextract ⊢
      subst hresult houtputs
      cases result' with
      | error error => simp at hextract
      | ok n =>
        simp only [Prod.mk.injEq, true_and] at hextract
        obtain ⟨rfl, rfl, rfl⟩ := hextract
        exact ⟨read', rfl, hopened, hfiles⟩
  · rw [if_neg ‹_›]
    exact h.extractFiles hsources hopen (List.Subset.refl sources) hextract

end Extraction

/-! ### The outputs -/

section Stages

variable {request : Request} {header : CatalogHeader} {outline? outline?' : Option Location}
  {start start' now now' opened finished : Tree} {outputs outputs' : Outputs}

/-- The outline that is opened is where its path leads. -/
theorem outline_of_start (h : Outputs.start request header start = .ok (outputs, opened)) :
    (request.needsOutline = false → outputs.outline? = none) ∧
    (request.needsOutline = true → ∃ location, outputs.outline? = some location ∧
      start.leads true request.outlinePath = some location ∧
      start.find? location ≠ some .directory) := by
  unfold Outputs.start at h
  cases hneeds : request.needsOutline with
  | false =>
    simp only [hneeds, Bool.false_eq_true, if_false, Except.ok.injEq, Prod.mk.injEq] at h
    obtain ⟨rfl, rfl⟩ := h
    simp
  | true =>
    cases hcreate : start.create request.outlinePath with
    | error fault => simp [hneeds, hcreate] at h
    | ok created =>
      obtain ⟨location, created⟩ := created
      simp only [hneeds, hcreate, if_true, Except.ok.injEq, Prod.mk.injEq] at h
      obtain ⟨rfl, rfl⟩ := h
      obtain ⟨hleads, hdirectory, -⟩ := Tree.create_cases hcreate
      exact ⟨by simp, fun _ => ⟨location, rfl, hleads, hdirectory⟩⟩

/-- **Opening the outputs again** leaves the same outline, where the path leads to a place of the
same layout. -/
theorem start_again (hnone : request.needsOutline = false → outline?' = none)
    (houtline : ∀ location, request.needsOutline = true →
      start.leads true request.outlinePath = some location → ∃ location',
        outline?' = some location' ∧ start'.leads true request.outlinePath = some location' ∧
        start'.layout location' = start.layout location)
    (hstart : Outputs.start request header start = .ok (outputs, opened)) :
    IsOpen request outputs.outline? outputs ∧
    ∃ opened', Outputs.start request header start' = .ok (outputs.onto outline?', opened') ∧
      InStep outputs.outline? outline?' start start' opened opened' := by
  unfold Outputs.start at hstart ⊢
  have hcatalog : (if request.catalog = true then some { header : Catalog } else none).isSome =
      request.catalog := by
    cases request.catalog <;> rfl
  cases hneeds : request.needsOutline with
  | false =>
    simp only [hneeds, Bool.false_eq_true, if_false, Except.ok.injEq, Prod.mk.injEq] at hstart ⊢
    obtain ⟨rfl, rfl⟩ := hstart
    obtain rfl := hnone hneeds
    exact ⟨⟨rfl, rfl, hcatalog⟩, start', ⟨rfl, rfl⟩, .refl _ start, .refl _ start', .none⟩
  | true =>
    cases hcreate : start.create request.outlinePath with
    | error fault => simp [hneeds, hcreate] at hstart
    | ok created =>
      obtain ⟨location, created⟩ := created
      simp only [hneeds, hcreate, if_true, Except.ok.injEq, Prod.mk.injEq] at hstart
      obtain ⟨rfl, rfl⟩ := hstart
      have hfile := request.outlinePath_namesFile
      obtain ⟨location', rfl, hleads', hlayout⟩ :=
        houtline location hneeds (Tree.create_cases hcreate).1
      obtain ⟨opened', hcreate', hat⟩ := Tree.create_again hfile hcreate hleads' hlayout
      refine ⟨⟨rfl, rfl, hcatalog⟩, opened', by simp only [hcreate', if_true]; rfl,
        Tree.create_writtenAt hfile hcreate, Tree.create_writtenAt hfile hcreate', .some ⟨hat, ?_⟩⟩
      rw [(Tree.find?_create hfile hcreate).1]
      rcases start.find? location with _ | (_ | _ | _ | _ | _) <;> simp [Files.Entry.rewritten]

/-- **The files of two runs when the outputs are finished**, side by side: in each of them, nothing
but the outline and the catalog was written, and these are the same. -/
structure Finished (outline? outline?' : Option Location) (saved : List Location)
    (start start' finished finished' : Tree) : Prop where
  first : Tree.WrittenAt (outline?.toList ++ saved) start finished
  second : Tree.WrittenAt (outline?'.toList ++ saved) start' finished'
  outline : Option.Rel (fun location location' =>
    finished'.find? location' = finished.find? location ∧ finished.find? location ≠ none)
      outline? outline?'
  catalog : ∀ location ∈ saved, finished'.find? location = finished.find? location
  own : ∀ location ∈ saved, (outline? = some location ↔ outline?' = some location)

/-- **Finishing the outputs again** has the same effect. -/
theorem finish_again (h : InStep outline? outline?' start start' now now')
    (hopen : IsOpen request outline? outputs)
    (hcatalog : ∀ location, request.catalog = true →
      start.leads true request.catalogPath = some location →
        start'.leads true request.catalogPath = some location ∧
        start'.layout location = start.layout location ∧
        (outline? = some location ↔ outline?' = some location))
    (hfinish : outputs.finish now = (.ok (), outputs', finished)) :
    ∃ finished' saved, (outputs.onto outline?').finish now' = (.ok (), outputs', finished') ∧
      Finished outline? outline?' saved start start' finished finished' := by
  obtain ⟨asked, opened?, catalog?⟩ := outputs
  obtain ⟨rfl, rfl, hwanted⟩ := hopen
  unfold Outputs.finish at hfinish ⊢
  simp only [Outputs.onto]
  cases catalog? with
  | none =>
    simp only [Prod.mk.injEq, true_and] at hfinish
    obtain ⟨rfl, rfl⟩ := hfinish
    exact ⟨now', [], rfl, by simpa using h.first, by simpa using h.second, h.outline, by simp,
      by simp⟩
  | some catalog =>
    simp only [Catalog.save] at hfinish ⊢
    have hfile := asked.catalogPath_namesFile
    rcases hsave : now.save asked.catalogPath catalog.text with ⟨result, saved⟩
    cases result with
    | error fault => simp [hsave] at hfinish
    | ok done =>
    simp only [hsave, Prod.mk.injEq, true_and] at hfinish
    obtain ⟨rfl, rfl⟩ := hfinish
    have hok : (now.save asked.catalogPath catalog.text).1 = .ok () := by rw [hsave]
    obtain ⟨-, location, hleads⟩ := Tree.leads_of_save hok
    obtain ⟨hstart', hlayout, hown⟩ := hcatalog location hwanted.symm
      ((h.first.sameBut.leads_eq hfile true).symm.trans hleads)
    have hleads' := (h.second.sameBut.leads_eq hfile true).trans hstart'
    obtain ⟨hok', hat⟩ := Tree.save_again hok hleads hleads'
      (by rw [h.first.layout, h.second.layout, hlayout])
    have hfirst := Tree.save_writtenAt hok hleads
    have hsecond := Tree.save_writtenAt hok' hleads'
    rcases hsave' : now'.save asked.catalogPath catalog.text with ⟨result', saved'⟩
    rw [hsave, hsave'] at hat
    rw [hsave] at hfirst
    rw [hsave'] at hok' hsecond
    subst hok'
    have hthere : saved.find? location ≠ none := by
      have hrewritten := (Tree.find?_save hfile hleads catalog.text).2.1
      rw [hsave] at hrewritten
      rw [hrewritten]
      rcases now.find? location with _ | (_ | _ | _ | _ | _) <;> simp [Files.Entry.rewritten]
    refine ⟨saved', [location], rfl, h.first.trans hfirst, h.second.trans hsecond, ?_,
      by simpa using hat, by simpa using hown⟩
    obtain ⟨-, -, houtline⟩ := h
    cases houtline with
    | none => exact .none
    | @some outline outline' hsame =>
      refine .some ?_
      by_cases houtline : outline = location
      · subst houtline
        obtain rfl : outline' = outline := by simpa using hown
        exact ⟨hat, hthere⟩
      · have houtline' : outline' ≠ location := by simpa [houtline] using hown
        rw [hfirst.find? outline (by simpa using houtline),
          hsecond.find? outline' (by simpa using houtline')]
        exact hsame

/-- Where both outlines are one, the outputs have the same effect. -/
theorem Finished.sameEffect {saved : List Location} {finished' : Tree}
    (h : Finished outline? outline? saved start start' finished finished')
    (hdirectory : start'.workingDirectory = start.workingDirectory) :
    Tree.SameEffect start start' finished finished' := by
  refine ⟨?_, fun location => ?_⟩
  · rw [h.first.workingDirectory, h.second.workingDirectory, hdirectory]
  · by_cases hlocation : location ∈ outline?.toList ++ saved
    · refine .inl ?_
      rcases List.mem_append.mp hlocation with houtline | hsaved
      · obtain rfl := Option.mem_toList.mp houtline
        obtain ⟨-, -, hsame, -, -⟩ := h
        cases hsame with
        | some hsame => exact hsame.1
      · exact h.catalog location hsaved
    · exact .inr ⟨h.first.find? location hlocation, h.second.find? location hlocation⟩

end Stages

/-- **Two runs that can go the same way**: the paths to the outlines lead to places of one layout,
and so do the paths to the catalog; and both runs find the same sources. -/
structure Prepared (request : Request) (sources : List Bytes) (outline? outline?' : Option Location)
    (start start' : Tree) : Prop where
  noOutline : request.needsOutline = false → outline?' = none
  outline : ∀ location, request.needsOutline = true →
    start.leads true request.outlinePath = some location → ∃ location',
      outline?' = some location' ∧ start'.leads true request.outlinePath = some location' ∧
      start'.layout location' = start.layout location
  sources : SameSources sources outline? outline?' start start'
  catalog : ∀ location, request.catalog = true →
    start.leads true request.catalogPath = some location →
      start'.leads true request.catalogPath = some location ∧
      start'.layout location = start.layout location ∧
      (outline? = some location ↔ outline?' = some location)

/-- **Both runs have finished their outputs.** -/
theorem Prepared.finished_again {request : Request} {header : CatalogHeader}
    {sources : List Bytes} {input? : Option (Bytes × Source.Ending)}
    {outline?' : Option Location} {tree tree' opened extracted finished : Tree}
    {outputs outputs' outputs'' : Outputs} {tally : Tally}
    (h : Prepared request sources outputs.outline? outline?' tree tree')
    (hstart : Outputs.start request header tree = .ok (outputs, opened))
    (hextract : extractAll sources input? outputs opened = (.ok (), tally, outputs', extracted))
    (hfinish : outputs'.finish extracted = (.ok (), outputs'', finished)) :
    ∃ opened' extracted' finished' saved,
      Outputs.start request header tree' = .ok (outputs.onto outline?', opened') ∧
      extractAll sources input? (outputs.onto outline?') opened' =
        (.ok (), tally, outputs'.onto outline?', extracted') ∧
      (outputs'.onto outline?').finish extracted' = (.ok (), outputs'', finished') ∧
      Finished outputs.outline? outline?' saved tree tree' finished finished' := by
  obtain ⟨hopen, opened', hstart', hopened⟩ := start_again h.noOutline h.outline hstart
  obtain ⟨extracted', hextract', hopen', hextracted⟩ :=
    extractAll_again hopened h.sources hopen hextract
  obtain ⟨finished', saved, hfinish', hfinished⟩ := finish_again hextracted hopen' h.catalog hfinish
  exact ⟨opened', extracted', finished', saved, hstart', hextract', hfinish', hfinished⟩

end Run

end DocHarvest
