import DocHarvest.Proofs.Files.Places
import DocHarvest.Run

/-!
# The Calls of a Formatter

A formatter is a stranger to the run that calls it: it may do anything to the files. What a run
does with it is therefore said about its calls. A formatter can be made to keep a record of
them in its own state, without any effect on the run, and the record shows the files before and
after each call.

## Main definitions

* `Run.Call` — one call: the format, the path of the outline, and the files before and after.
* `Run.recorded` — a formatter that keeps a record of its calls.
* `Run.calls` — the calls that a run makes.
* `Run.Call.LeavesAlone` — a call changes nothing at a path.

## Main results

* `run_eq_ok_iff` — a run succeeds exactly when its steps do.
* `Run.check_eq_ok_iff` — which requests pass the check.
* `Run.steps_of_run` — the steps of a successful run, with the calls in between.
* `Run.Chain.look_eq` — calls that leave a path alone see the same there, from first to last.
-/

namespace DocHarvest

open Files (Tree Location Path)

namespace Run

variable {σ : Type}

/-- One call of a formatter, with the files before and after it. -/
structure Call where
  format : Format
  path : Bytes
  before : Tree
  after : Tree

/-- A formatter that notes every call at the end of a record. -/
def recorded (formatter : Formatter σ) : Formatter (σ × List Call) :=
  fun format path (tree, state, calls) =>
    let (result, tree', state') := formatter format path (tree, state)
    (result, tree', state', calls ++ [⟨format, path, tree, tree'⟩])

/-- The same materials, with a formatter that keeps a record. -/
def Materials.recorded (materials : Materials σ) : Materials (σ × List Call) where
  sources := materials.sources
  input? := materials.input?
  header := materials.header
  formatter? := materials.formatter?.map Run.recorded

/-- The calls that a run makes. -/
def calls (request : Request) (materials : Materials σ) (tree : Tree) (state : σ) : List Call :=
  (run request materials.recorded tree (state, [])).2.2.2.2

/-- A call leaves a path alone when the path shows the same before and after it. -/
def Call.LeavesAlone (call : Call) (path : Bytes) : Prop :=
  ∀ through, call.after.look through path = call.before.look through path

instance (call : Call) (path : Bytes) : Decidable (call.LeavesAlone path) :=
  inferInstanceAs (Decidable (∀ _ : Bool, _))

/-! ### Calls one after another -/

/-- Each call finds the files as the one before it left them. -/
def Chain : Tree → List Call → Tree → Prop
  | tree, [], tree' => tree = tree'
  | tree, call :: others, tree' => call.before = tree ∧ Chain call.after others tree'

/-- **Calls that leave a path alone see the same there**, from the first to the last. -/
theorem Chain.look_eq {tree tree' : Tree} {cs : List Call} {path : Bytes}
    (h : Chain tree cs tree') (halone : ∀ call ∈ cs, call.LeavesAlone path) (through : Bool) :
    tree'.look through path = tree.look through path ∧
      ∀ call ∈ cs, call.before.look through path = tree.look through path := by
  induction cs generalizing tree with
  | nil =>
    obtain rfl := h
    exact ⟨rfl, by simp⟩
  | cons call others ih =>
    obtain ⟨rfl, hothers⟩ := h
    obtain ⟨hcall, hrest⟩ := List.forall_mem_cons.mp halone
    obtain ⟨hafter, hbefore⟩ := ih hothers hrest
    rw [hcall through] at hafter hbefore
    exact ⟨hafter, List.forall_mem_cons.mpr ⟨rfl, hbefore⟩⟩

/-- The record of a successful export: one call for each format, in their order. -/
theorem exportAll_recorded {formatter : Formatter σ} {outline : Bytes} {formats : List Format}
    {tally tally' : Tally} {tree tree' : Tree} {state state' : σ}
    (h : exportAll formatter outline formats tally (tree, state) =
      (.ok (), tally', tree', state')) (earlier : List Call) :
    ∃ new, exportAll (recorded formatter) outline formats tally (tree, state, earlier) =
        (.ok (), tally', tree', state', earlier ++ new) ∧
      Chain tree new tree' ∧
      (new.map fun call => (call.format, call.path)) = formats.map (·, outline) ∧
      tally' = { tally with exports := tally.exports + formats.length } := by
  induction formats generalizing tally tree state earlier with
  | nil =>
    simp only [exportAll, Prod.mk.injEq, true_and] at h
    obtain ⟨rfl, rfl, rfl⟩ := h
    exact ⟨[], by simp [exportAll], rfl, rfl, rfl⟩
  | cons format others ih =>
    unfold exportAll at h
    rcases hcall : formatter format outline (tree, state) with ⟨result, after, state₁⟩
    cases result with
    | error error => simp [hcall] at h
    | ok done =>
      simp only [hcall] at h
      obtain ⟨new, hnew, hchain, hformats, rfl⟩ :=
        ih h (earlier ++ [⟨format, outline, tree, after⟩])
      refine ⟨⟨format, outline, tree, after⟩ :: new, ?_, ⟨rfl, hchain⟩, ?_, ?_⟩
      · simpa [exportAll, recorded, hcall] using hnew
      · simp [hformats]
      · simp only [List.length_cons, Tally.mk.injEq, true_and]
        omega

end Run

/-! ### The steps of a run -/

/-- The formatter of a run; when there is none, no call is ever made. -/
def Run.Materials.formatter {σ : Type} (materials : Run.Materials σ) : Formatter σ :=
  materials.formatter?.getD fun _ _ world => (.ok (), world)

/-- **A run succeeds exactly when its steps do.** -/
theorem run_eq_ok_iff {σ : Type} {request : Request} {materials : Run.Materials σ}
    {tree tree' : Tree} {state state' : σ} {tally' : Tally} :
    run request materials tree state = (.ok (), tally', tree', state') ↔
      Run.check request tree = .ok () ∧
      (request.exports ≠ [] → materials.formatter?.isSome) ∧
      ∃ outputs opened tally outputs' extracted outputs'' finished exported,
        Outputs.start request materials.header tree = .ok (outputs, opened) ∧
        Run.extractAll materials.sources materials.input? outputs opened =
          (.ok (), tally, outputs', extracted) ∧
        outputs'.finish extracted = (.ok (), outputs'', finished) ∧
        Run.exportAll materials.formatter request.outlinePath request.exports tally
          (finished, state) = (.ok (), tally', exported, state') ∧
        Run.removeIntermediate request exported = .ok tree' := by
  constructor
  · intro h
    unfold run at h
    split at h
    · simp at h
    · simp at h
    rename_i hcheck hformatter
    split at h
    · simp at h
    rename_i outputs opened hstart
    split at h
    · simp at h
    rename_i tally outputs' extracted hextract
    split at h
    · simp at h
    rename_i outputs'' finished hfinish
    dsimp only at h
    split at h
    · simp at h
    rename_i tally exported state hexport
    split at h
    · simp at h
    rename_i removed hremove
    simp only [Prod.mk.injEq, true_and] at h
    obtain ⟨rfl, rfl, rfl⟩ := h
    have hsome : request.exports ≠ [] → materials.formatter?.isSome := fun hne =>
      Option.isSome_iff_ne_none.mpr (hformatter (by simpa using hne))
    exact ⟨hcheck, hsome, _, _, _, _, _, _, _, _, hstart, hextract, hfinish, hexport, hremove⟩
  · rintro ⟨hcheck, hformatter, outputs, opened, tally, outputs', extracted, outputs'', finished,
      exported, hstart, hextract, hfinish, hexport, hremove⟩
    unfold run
    split
    · rename_i herror
      cases hcheck.symm.trans herror
    · rename_i hempty hnone
      simp [hnone, List.isEmpty_eq_false_iff.mp hempty] at hformatter
    · unfold Run.Materials.formatter at hexport
      simp only [hstart, hextract, hfinish, hexport, hremove]

/-- **A request passes the check** when it is named and an outline that would be an intermediate
is missing. -/
theorem Run.check_eq_ok_iff {request : Request} {tree : Tree} :
    Run.check request tree = .ok () ↔ request.isNamed = true ∧
      (request.outlineIsIntermediate = true →
        tree.inspect request.outlinePath = .error .missing) := by
  unfold Run.check
  cases request.isNamed with
  | false => simp
  | true =>
    cases request.outlineIsIntermediate with
    | false => simp
    | true =>
      cases hinspect : tree.inspect request.outlinePath with
      | ok entry => simp [hinspect]
      | error fault => cases fault <;> simp [hinspect]

/-- A run that does not pass the check touches nothing. -/
theorem run_of_check_error {σ : Type} {request : Request} {tree : Tree} {error : RunError}
    (h : Run.check request tree = .error error) (materials : Run.Materials σ) (state : σ) :
    run request materials tree state = (.error error, {}, tree, state) := by
  unfold run
  split
  · rename_i herror
    rw [h] at herror
    rw [Except.error.inj herror]
  · rename_i hok _ _
    cases h.symm.trans hok
  · rename_i hok _
    cases h.symm.trans hok

/-- A run that fails while it reads ends there. -/
theorem run_of_extractAll_error {σ : Type} {request : Request} {materials : Run.Materials σ}
    {tree opened extracted : Tree} {outputs outputs' : Outputs} {tally : Tally} {error : RunError}
    (hcheck : Run.check request tree = .ok ())
    (hformatter : request.exports ≠ [] → materials.formatter?.isSome)
    (hstart : Outputs.start request materials.header tree = .ok (outputs, opened))
    (hextract : Run.extractAll materials.sources materials.input? outputs opened =
      (.error error, tally, outputs', extracted)) (state : σ) :
    run request materials tree state = (.error error, tally, extracted, state) := by
  unfold run
  split
  · rename_i herror
    cases hcheck.symm.trans herror
  · rename_i hempty hnone
    simp [hnone, List.isEmpty_eq_false_iff.mp hempty] at hformatter
  · simp only [hstart, hextract]

namespace Run

/-- An outline is removed when it was only an intermediate, and kept otherwise. -/
theorem removeIntermediate_ok {request : Request} {tree removed : Tree}
    (h : removeIntermediate request tree = .ok removed) :
    request.outlineIsIntermediate = false ∧ removed = tree ∨
      request.outlineIsIntermediate = true ∧
        tree.remove request.outlinePath = .ok removed := by
  unfold removeIntermediate at h
  cases hintermediate : request.outlineIsIntermediate with
  | false =>
    simp only [hintermediate, Bool.false_eq_true, if_false, Except.ok.injEq] at h
    exact .inl ⟨rfl, h.symm⟩
  | true =>
    cases hgone : tree.remove request.outlinePath with
    | error fault => simp [hintermediate, hgone] at h
    | ok rest =>
      simp only [hintermediate, hgone, if_true, Except.ok.injEq] at h
      exact .inr ⟨rfl, by rw [h]⟩

/-- Keeping a record of the calls changes nothing in a run: what is recorded while documents are
made is the record of the run. -/
theorem recorded_of_run {σ : Type} {request : Request} {materials : Materials σ}
    {tree tree' : Tree} {state state' : σ} {tally' : Tally}
    (h : run request materials tree state = (.ok (), tally', tree', state')) :
    run request materials.recorded tree (state, []) =
        (.ok (), tally', tree', state', calls request materials tree state) ∧
    ∃ outputs opened tally outputs' extracted outputs'' finished exported,
      Outputs.start request materials.header tree = .ok (outputs, opened) ∧
      extractAll materials.sources materials.input? outputs opened =
        (.ok (), tally, outputs', extracted) ∧
      outputs'.finish extracted = (.ok (), outputs'', finished) ∧
      exportAll materials.formatter request.outlinePath request.exports tally
        (finished, state) = (.ok (), tally', exported, state') ∧
      exportAll (recorded materials.formatter) request.outlinePath request.exports tally
        (finished, state, []) =
          (.ok (), tally', exported, state', calls request materials tree state) ∧
      removeIntermediate request exported = .ok tree' := by
  obtain ⟨hcheck, hformatter, outputs, opened, tally, outputs', extracted, outputs'', finished,
    exported, hstart, hextract, hfinish, hexport, hremove⟩ := run_eq_ok_iff.mp h
  obtain ⟨new, hnew, -⟩ := exportAll_recorded hexport []
  have hrecorded : run request materials.recorded tree (state, []) =
      (.ok (), tally', tree', state', new) := by
    refine run_eq_ok_iff.mpr ⟨hcheck, ?_, outputs, opened, tally, outputs', extracted, outputs'',
      finished, exported, hstart, hextract, hfinish, ?_, hremove⟩
    · simpa [Materials.recorded] using hformatter
    · cases hsome : materials.formatter? with
      | some formatter => simpa [Materials.formatter, Materials.recorded, hsome] using hnew
      | none =>
        have hnone : request.exports = [] := by
          simpa [hsome] using hformatter
        rw [hnone] at hnew ⊢
        simpa [exportAll] using hnew
  have hcalls : calls request materials tree state = new := by
    rw [calls, hrecorded]
  rw [hcalls]
  exact ⟨hrecorded, outputs, opened, tally, outputs', extracted, outputs'', finished, exported,
    hstart, hextract, hfinish, hexport, hnew, hremove⟩

/-- **The steps of a successful run**, with the calls of the formatter in between. -/
theorem steps_of_run {σ : Type} {request : Request} {materials : Materials σ}
    {tree tree' : Tree} {state state' : σ} {tally' : Tally}
    (h : run request materials tree state = (.ok (), tally', tree', state')) :
    run request materials.recorded tree (state, []) =
        (.ok (), tally', tree', state', calls request materials tree state) ∧
    ∃ outputs opened tally outputs' extracted outputs'' finished exported,
      Outputs.start request materials.header tree = .ok (outputs, opened) ∧
      extractAll materials.sources materials.input? outputs opened =
        (.ok (), tally, outputs', extracted) ∧
      outputs'.finish extracted = (.ok (), outputs'', finished) ∧
      Chain finished (calls request materials tree state) exported ∧
      ((calls request materials tree state).map fun call => (call.format, call.path)) =
        request.exports.map (·, request.outlinePath) ∧
      tally' = { tally with exports := tally.exports + request.exports.length } ∧
      removeIntermediate request exported = .ok tree' := by
  obtain ⟨hrecorded, outputs, opened, tally, outputs', extracted, outputs'', finished, exported,
    hstart, hextract, hfinish, hexport, hcalls, hremove⟩ := recorded_of_run h
  obtain ⟨new, hnew, hchain, hformats, htally⟩ := exportAll_recorded hexport []
  obtain rfl : calls request materials tree state = new := by
    simpa [hcalls] using hnew
  exact ⟨hrecorded, outputs, opened, tally, outputs', extracted, outputs'', finished, exported,
    hstart, hextract, hfinish, hchain, hformats, htally, hremove⟩

end Run

end DocHarvest
