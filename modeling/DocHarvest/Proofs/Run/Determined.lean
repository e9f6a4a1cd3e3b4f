import DocHarvest.Proofs.Files.Layout
import DocHarvest.Proofs.Run.Exports

/-!
# Determined Formatters

A formatter may do anything to the files. When a run is repeated, its formatter is asked to do the
same once more, and for that its effect has to be determined by what it is given: the format, the
path of the outline and the content of the outline. Then the calls of two runs have the same
effect, as long as the outlines are read alike before each call.

## Main definitions

* `Run.Determined` — the effect of a formatter is determined by the outline.
* `Run.saving`, `Run.illustrating`, `Run.moving` — a few formatters.

## Main results

* `Run.determined_saving`, `Run.Determined.illustrating`, `Run.determined_moving` — these
  formatters are determined.
* `Run.exportAll_again` — making the documents again has the same effect.
-/

namespace DocHarvest

open Files (Tree Location Path)

namespace Run

/-- **The effect of a formatter is determined** by the format, the path of the outline and the
content of the outline: called twice with the same of these, it succeeds the second time if it did
the first time, with the same effect, whatever its own state is and whatever files there are. It
may go by directories, links and permissions at some places, and then this is said for files that
have the layout of a tree there. -/
def Determined {σ : Type} (places : List Location) (tree : Tree) (formatter : Formatter σ) :
    Prop :=
  ∀ (format : Format) (outline : Bytes) (now now' : Tree) (state state' : σ),
    Tree.SameLayout places tree now → Tree.SameLayout places tree now' →
    now'.contents outline = now.contents outline →
    (formatter format outline (now, state)).1 = .ok () →
      (formatter format outline (now', state')).1 = .ok () ∧
      Tree.SameEffect now now' (formatter format outline (now, state)).2.1
        (formatter format outline (now', state')).2.1

/-- A formatter that turns the outline into a text and saves it at a path. -/
def saving {σ : Type} (target : Format → Bytes → Bytes) (convert : Format → Bytes → Bytes) :
    Formatter σ := fun format outline (tree, state) =>
  match tree.contents outline with
  | .error (operation, fault) =>
    (.error (.other (.file operation outline fault)), tree, state)
  | .ok text =>
    let path := target format outline
    match tree.save path (convert format text) with
    | (.error (operation, fault), saved) =>
      (.error (.other (.file operation path fault)), saved, state)
    | (.ok (), saved) => (.ok (), saved, state)

/-- Such a formatter is determined, wherever it saves: also through links, as long as these are
the same. -/
theorem determined_saving {σ : Type} {places : List Location} {tree : Tree}
    {target : Format → Bytes → Bytes} (convert : Format → Bytes → Bytes)
    (htarget : ∀ format outline, tree.passed (target format outline) ⊆ places) :
    Determined places tree (saving target convert : Formatter σ) := by
  intro format outline now now' state state' hnow hnow' hcontents hok
  have hpath : now.passed (target format outline) ⊆ places := by
    rw [hnow.passed_eq (htarget format outline)]
    exact htarget format outline
  simp only [saving, hcontents] at hok ⊢
  cases hread : now.contents outline with
  | error fault => simp [hread] at hok
  | ok text =>
    simp only [hread] at hok ⊢
    rcases hsave : now.save (target format outline) (convert format text) with ⟨result, saved⟩
    cases result with
    | error fault => simp [hsave] at hok
    | ok done =>
      obtain ⟨hok', heffect⟩ := (hnow.symm.trans hnow').save hpath
        (by rw [hsave] : (now.save (target format outline) (convert format text)).1 = .ok ())
      rcases hsave' : now'.save (target format outline) (convert format text) with
        ⟨result', saved'⟩
      rw [hsave, hsave'] at heffect
      rw [hsave'] at hok'
      subst hok'
      exact ⟨rfl, heffect⟩

/-- A formatter that does what another one does and makes a directory beside it. -/
def illustrating {σ : Type} (directory : Location) (formatter : Formatter σ) : Formatter σ :=
  fun format outline world =>
    let (result, tree, state) := formatter format outline world
    (result, tree.set directory .directory, state)

/-- Such a formatter is determined if the other one is. -/
theorem Determined.illustrating {σ : Type} {places : List Location} {tree : Tree}
    {formatter : Formatter σ} (h : Determined places tree formatter) {directory : Location}
    (hdirectory : directory ≠ []) :
    Determined places tree (Run.illustrating directory formatter) := by
  intro format outline now now' state state' hnow hnow' hcontents hok
  obtain ⟨hok', heffect⟩ := h format outline now now' state state' hnow hnow' hcontents hok
  refine ⟨hok', heffect.workingDirectory, fun location => ?_⟩
  simp only [Run.illustrating]
  by_cases hlocation : location = directory
  · subst hlocation
    simp only [Tree.find?_set_self _ hdirectory, true_or]
  · simp only [Tree.find?_set_ne _ hlocation]
    exact heffect.find? location

/-- A formatter that removes what is at one location and puts the outline as a file at another. -/
def moving {σ : Type} (source target : Location) : Formatter σ :=
  fun _ outline (tree, state) =>
    match tree.contents outline with
    | .error (operation, fault) =>
      (.error (.other (.file operation outline fault)), tree, state)
    | .ok text => (.ok (), (tree.erase source).set target (.file text false), state)

/-- Such a formatter is determined, and goes by nothing but the outline. -/
theorem determined_moving {σ : Type} {source target : Location} (hsource : source ≠ [])
    (htarget : target ≠ []) (tree : Tree) :
    Determined [] tree (moving source target : Formatter σ) := by
  intro format outline now now' state state' hnow hnow' hcontents hok
  have hdirectory : now'.workingDirectory = now.workingDirectory :=
    (hnow.symm.trans hnow').workingDirectory
  simp only [moving, hcontents] at hok ⊢
  cases hread : now.contents outline with
  | error fault => simp [hread] at hok
  | ok text =>
    refine ⟨rfl, hdirectory, fun location => ?_⟩
    by_cases hlocation : location = target
    · subst hlocation
      simp only [Tree.find?_set_self _ htarget, true_or]
    · simp only [Tree.find?_set_ne _ hlocation]
      by_cases hgone : location = source
      · subst hgone
        simp only [Tree.find?_erase_self _ hsource, true_or]
      · simp only [Tree.find?_erase_ne _ hgone, and_self, or_true]

/-! ### The calls of two runs -/

/-- **Making the documents again** has the same effect. What relates the files of the two runs is
left open: it has to say that the outlines are read alike, and to be kept by each call. -/
theorem exportAll_again (Related : Tree → Tree → Prop) {σ : Type} {places : List Location}
    {tree : Tree}
    {formatter : Formatter σ} {outline : Bytes} {formats : List Format} {tally tally' : Tally}
    {now now' exported : Tree} {state final : σ} {earlier new : List Call}
    (hformatter : formats ≠ [] → Determined places tree formatter)
    (hrelated : formats ≠ [] → ∀ now now', Related now now' → Tree.SameLayout places tree now ∧
      Tree.SameLayout places tree now' ∧ now'.contents outline = now.contents outline)
    (hcalls : ∀ call ∈ new, ∀ before' after', Related call.before before' →
      Tree.SameEffect call.before before' call.after after' → Related call.after after')
    (hexport : exportAll formatter outline formats tally (now, state) =
      (.ok (), tally', exported, final))
    (hrecord : exportAll (recorded formatter) outline formats tally (now, state, earlier) =
      (.ok (), tally', exported, final, earlier ++ new))
    (h : Related now now') (state₂ : σ) :
    ∃ exported' final', exportAll formatter outline formats tally (now', state₂) =
        (.ok (), tally', exported', final') ∧ Related exported exported' := by
  induction formats generalizing tally now now' state earlier new state₂ with
  | nil =>
    simp only [exportAll, Prod.mk.injEq, true_and] at hexport
    obtain ⟨rfl, rfl, rfl⟩ := hexport
    exact ⟨now', state₂, rfl, h⟩
  | cons format others ih =>
    have hne : format :: others ≠ [] := List.cons_ne_nil format others
    obtain ⟨hnow, hnow', hcontents⟩ := hrelated hne now now' h
    unfold exportAll at hexport hrecord ⊢
    rcases hcall : formatter format outline (now, state) with ⟨result, after, state₁⟩
    cases result with
    | error error => simp [hcall] at hexport
    | ok done =>
      obtain ⟨hok, heffect⟩ := hformatter hne format outline now now' state state₂ hnow hnow'
        hcontents (by rw [hcall])
      rcases hcall' : formatter format outline (now', state₂) with ⟨result', after', state₁'⟩
      rw [hcall, hcall'] at heffect
      rw [hcall'] at hok
      obtain rfl : result' = .ok () := hok
      have hnoted : recorded formatter format outline (now, state, earlier) =
          (.ok (), after, state₁, earlier ++ [⟨format, outline, now, after⟩]) := by
        simp only [recorded, hcall]
      simp only [hcall, hnoted] at hexport hrecord
      obtain ⟨rest, hrest, -⟩ :=
        exportAll_recorded hexport (earlier ++ [⟨format, outline, now, after⟩])
      obtain rfl : new = ⟨format, outline, now, after⟩ :: rest := by
        simpa [hrest] using hrecord.symm
      obtain ⟨hfirst, hothers⟩ := List.forall_mem_cons.mp hcalls
      exact ih (fun _ => hformatter hne) (fun _ => hrelated hne) hothers hexport hrest
        (hfirst now' after' h heffect) state₁'

end Run

end DocHarvest
