import DocHarvest.Outputs
import DocHarvest.Proofs.Catalog.Grouping
import DocHarvest.Proofs.Files.Growth
import DocHarvest.Proofs.Outputs.Contents

/-!
# How Far the Outputs Come

The outputs of a run take documentation strings up to the first that the catalog refuses. The two
outputs are written at different moments: the text of a string is in the outline before the
catalog is asked, so the outline also has the text of the string that is refused, and the catalog
is no file at all before the end.

## Main definitions

* `Request.Accepts` — a string that the outputs of a request take.
* `Outputs.grown` — the tree after a text has reached the outline.
* `Outputs.Serves` — open outputs of a request, with room for the outline.

## Main results

* `Outputs.serves_start` — what opening the outputs does to the files.
* `Outputs.Serves.addAll_accepted` — strings that are all accepted are all taken.
* `Outputs.Serves.addAll_refused` — the first refused string is the last to reach the outline.
-/

namespace DocHarvest

open Files (Tree Location Path)

/-- The outputs of a request take a string unless a catalog is wanted and the text is not UTF-8. -/
def Request.Accepts (request : Request) (d : DocString) : Prop :=
  request.catalog = true → Utf8.IsText d.text

instance (request : Request) (d : DocString) : Decidable (request.Accepts d) :=
  inferInstanceAs (Decidable (_ → _))

namespace Outputs

/-- The tree after a text has reached the outline, if one is open. -/
def grown (outline? : Option Location) (text : Bytes) (tree : Tree) : Tree :=
  match outline? with
  | none => tree
  | some location => tree.written location text

/-- To write nothing changes nothing. -/
@[simp]
theorem grown_nil (outline? : Option Location) (tree : Tree) : grown outline? [] tree = tree := by
  cases outline? <;> simp [grown]

/-- Texts are written one after another. -/
theorem grown_grown (outline? : Option Location) (first second : Bytes) (tree : Tree) :
    grown outline? second (grown outline? first tree) = grown outline? (first ++ second) tree := by
  cases outline? with
  | none => rfl
  | some location => exact tree.written_written location first second

/-- **Open outputs of a request**: the outline is the given file and has room, and there is a
catalog exactly when one is wanted. -/
structure Serves (request : Request) (outline? : Option Location) (tree : Tree)
    (outputs : Outputs) : Prop where
  outline : outputs.outline? = outline?
  catalog : outputs.catalog?.isSome = request.catalog
  room : ∀ location, outline? = some location → tree.find? location ≠ some .full

namespace Serves

variable {request : Request} {outline? : Option Location} {tree : Tree} {outputs : Outputs}

/-- Writing leaves room for more. -/
theorem after (h : Serves request outline? tree outputs) (text : Bytes) {outputs' : Outputs}
    (houtline : outputs'.outline? = outputs.outline?)
    (hcatalog : outputs'.catalog?.isSome = outputs.catalog?.isSome) :
    Serves request outline? (grown outline? text tree) outputs' := by
  refine ⟨houtline.trans h.outline, hcatalog.trans h.catalog, ?_⟩
  rintro location rfl
  exact mt ((tree.alike_written location text).find?_eq_some (by simp)).mp (h.room location rfl)

/-- Open outputs take a text for the outline. -/
theorem writeOutline (h : Serves request outline? tree outputs) (text : Bytes) :
    outputs.writeOutline text tree = .ok (grown outline? text tree) := by
  unfold Outputs.writeOutline grown
  rw [h.outline]
  cases houtline : outline? with
  | none => rfl
  | some location => simp only [Tree.append_eq_written (h.room location houtline)]

/-- An accepted string is taken. -/
theorem add_accepted (h : Serves request outline? tree outputs) {d : DocString}
    (haccepts : request.Accepts d) :
    ∃ outputs', outputs.add d tree = (.ok (), outputs', grown outline? d.text tree) ∧
      Serves request outline? (grown outline? d.text tree) outputs' := by
  unfold Outputs.add
  rw [h.writeOutline]
  cases hcatalog : outputs.catalog? with
  | none => exact ⟨outputs, rfl, h.after d.text rfl rfl⟩
  | some catalog =>
    have hwanted : request.catalog = true := by rw [← h.catalog, hcatalog, Option.isSome_some]
    simp only [Catalog.add_of_isText (haccepts hwanted)]
    exact ⟨_, rfl, h.after d.text rfl (by simp [hcatalog])⟩

/-- A refused string has reached the outline, and the refusal names it. -/
theorem add_refused (h : Serves request outline? tree outputs) {d : DocString}
    (hrefuses : ¬ request.Accepts d) :
    outputs.add d tree =
      (.error (.refused ⟨d.source, d.line⟩), outputs, grown outline? d.text tree) := by
  obtain ⟨hwanted, htext⟩ := Classical.not_imp.mp hrefuses
  obtain ⟨catalog, hcatalog⟩ := Option.isSome_iff_exists.mp (h.catalog.trans hwanted)
  unfold Outputs.add
  simp only [h.writeOutline, hcatalog, Catalog.add_of_not_isText htext]

/-- **Strings that are all accepted are all taken**, and the outline has grown by their texts. -/
theorem addAll_accepted (h : Serves request outline? tree outputs) {ds : List DocString}
    (haccepts : ∀ d ∈ ds, request.Accepts d) :
    ∃ outputs', outputs.addAll ds tree =
        (.ok (), outputs', grown outline? (ds.flatMap DocString.text) tree) ∧
      Serves request outline? (grown outline? (ds.flatMap DocString.text) tree) outputs' := by
  induction ds generalizing outputs tree with
  | nil => exact ⟨outputs, by simp [Outputs.addAll], by simpa using h⟩
  | cons d others ih =>
    obtain ⟨hd, hothers⟩ := List.forall_mem_cons.mp haccepts
    obtain ⟨next, hadd, hnext⟩ := h.add_accepted hd
    obtain ⟨outputs', hall, hserves⟩ := ih hnext hothers
    rw [grown_grown] at hall hserves
    refine ⟨outputs', ?_, by simpa using hserves⟩
    simp only [Outputs.addAll, hadd, hall, List.flatMap_cons]

/-- **The first refused string is the last to reach the outline.** -/
theorem addAll_refused (h : Serves request outline? tree outputs) {before : List DocString}
    {d : DocString} (haccepts : ∀ b ∈ before, request.Accepts b) (hrefuses : ¬ request.Accepts d)
    (after : List DocString) :
    ∃ outputs', outputs.addAll (before ++ d :: after) tree =
      (.error (.refused ⟨d.source, d.line⟩), outputs',
        grown outline? ((before ++ [d]).flatMap DocString.text) tree) := by
  induction before generalizing outputs tree with
  | nil => exact ⟨outputs, by simp [Outputs.addAll, h.add_refused hrefuses]⟩
  | cons b others ih =>
    obtain ⟨hb, hothers⟩ := List.forall_mem_cons.mp haccepts
    obtain ⟨next, hadd, hnext⟩ := h.add_accepted hb
    obtain ⟨outputs', hall⟩ := ih hnext hothers
    rw [grown_grown] at hall
    refine ⟨outputs', ?_⟩
    simp only [List.cons_append, Outputs.addAll, hadd, hall, List.flatMap_cons]

end Serves

/-! ### Opening the outputs -/

/-- **What opening the outputs does.** Without an outline nothing is touched. With one, the file
where its path leads stands empty, or the device there is as it was, and nothing else has
changed. -/
theorem serves_start {request : Request} {header : CatalogHeader} {tree opened : Tree}
    {outputs : Outputs} (h : start request header tree = .ok (outputs, opened))
    (hspace : request.needsOutline = true → tree.inspect request.outlinePath ≠ .ok .full) :
    Serves request outputs.outline? opened outputs ∧
      (request.needsOutline = false → outputs.outline? = none ∧ opened = tree) ∧
      (request.needsOutline = true → ∃ location, outputs.outline? = some location ∧
        tree.leads true request.outlinePath = some location ∧
        tree.find? location ≠ some .directory ∧ Tree.SameBut [location] tree opened ∧
        (tree.KeepsWrites request.outlinePath →
          ∃ executable, opened.find? location = some (.file [] executable))) := by
  unfold start at h
  cases hneeds : request.needsOutline with
  | false =>
    simp only [hneeds, Bool.false_eq_true, if_false, Except.ok.injEq, Prod.mk.injEq] at h
    obtain ⟨rfl, rfl⟩ := h
    refine ⟨⟨rfl, ?_, by simp⟩, fun _ => ⟨rfl, rfl⟩, by simp⟩
    cases request.catalog <;> rfl
  | true =>
    cases hcreate : tree.create request.outlinePath with
    | error fault => simp [hneeds, hcreate] at h
    | ok result =>
      obtain ⟨location, created⟩ := result
      simp only [hneeds, hcreate, if_true, Except.ok.injEq, Prod.mk.injEq] at h
      obtain ⟨rfl, rfl⟩ := h
      obtain ⟨hleads, hdirectory, hcases⟩ := Tree.create_cases hcreate
      have hfull : created.find? location ≠ some .full := by
        rcases hcases with ⟨executable, hleaf, rfl⟩ | ⟨entry, hfind, -, rfl⟩
        · simp [Tree.find?_set_file hleaf]
        · intro hfull
          exact hspace hneeds (Tree.inspect_eq_ok (Tree.look_eq_some_iff.mpr ⟨hleads, hfull⟩))
      refine ⟨⟨rfl, by cases request.catalog <;> rfl, by simpa using hfull⟩, by simp, fun _ =>
        ⟨location, rfl, hleads, hdirectory, Tree.create_sameBut hcreate, fun hkeeps => ?_⟩⟩
      obtain ⟨-, hleaf, executable, rfl⟩ := Tree.create_ok hkeeps hcreate
      exact ⟨executable, Tree.find?_set_file hleaf [] executable⟩

end Outputs

end DocHarvest
