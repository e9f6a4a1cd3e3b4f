import DocHarvest.Bytes

/-!
# Cutting Bytes into Lines

A run of bytes is cut into lines in one way only: after every line feed, with what follows the
last one as a line of its own unless nothing does. `Bytes.CutIntoLines` says so as a relation, and
`Bytes.lines` computes it.

## Main definitions

* `Bytes.CutIntoLines` — a run of bytes and its lines.

## Main results

* `Bytes.cutIntoLines_iff` — every run of bytes is cut in one way, the one that is computed.
-/

namespace DocHarvest.Bytes

/-- **A run of bytes is cut after every line feed.** An unterminated tail is a line when it is
not empty. -/
inductive CutIntoLines : Bytes → List Bytes → Prop
  | done : CutIntoLines [] []
  | tail {body : Bytes} (unbroken : Byte.lineFeed ∉ body) (left : body ≠ []) :
      CutIntoLines body [body]
  | line {body rest : Bytes} {others : List Bytes} (unbroken : Byte.lineFeed ∉ body)
      (onward : CutIntoLines rest others) :
      CutIntoLines (body ++ Byte.lineFeed :: rest) ((body ++ [Byte.lineFeed]) :: others)

/-- Bytes without a line feed are one line. -/
theorem lines_of_not_mem {s : Bytes} (h : Byte.lineFeed ∉ s) (hne : s ≠ []) :
    lines s = [s] := by
  induction s with
  | nil => exact absurd rfl hne
  | cons b rest ih =>
    rw [List.mem_cons, not_or] at h
    rw [lines, if_neg (Ne.symm h.1)]
    cases rest with
    | nil => rfl
    | cons c others => rw [ih h.2 (List.cons_ne_nil c others)]

/-- The first line reaches up to the first line feed. -/
theorem lines_append {s : Bytes} (h : Byte.lineFeed ∉ s) (rest : Bytes) :
    lines (s ++ Byte.lineFeed :: rest) = (s ++ [Byte.lineFeed]) :: lines rest := by
  induction s with
  | nil => simp [lines]
  | cons b others ih =>
    rw [List.mem_cons, not_or] at h
    rw [List.cons_append, lines, if_neg (Ne.symm h.1), ih h.2]
    rfl

/-- Bytes are cut in no other way than the one that is computed. -/
theorem CutIntoLines.eq_lines {s : Bytes} {ls : List Bytes} (h : CutIntoLines s ls) :
    ls = lines s := by
  induction h with
  | done => rfl
  | tail unbroken left => rw [lines_of_not_mem unbroken left]
  | line unbroken _ ih => rw [lines_append unbroken, ih]

/-- The lines that are computed are a way to cut the bytes. -/
theorem cutIntoLines_lines (s : Bytes) : CutIntoLines s (lines s) := by
  induction hn : s.length using Nat.strongRecOn generalizing s with
  | ind n ih =>
  by_cases hmem : Byte.lineFeed ∈ s
  · obtain ⟨body, rest, rfl, hbody⟩ := List.eq_append_cons_of_mem hmem
    have hshorter : rest.length < n := by
      rw [← hn, List.length_append, List.length_cons]
      omega
    rw [lines_append hbody]
    exact .line hbody (ih rest.length hshorter rest rfl)
  · by_cases hne : s = []
    · subst hne
      exact .done
    · rw [lines_of_not_mem hmem hne]
      exact .tail hmem hne

/-- **Every run of bytes is cut in one way**, the one that is computed. -/
theorem cutIntoLines_iff {s : Bytes} {ls : List Bytes} : CutIntoLines s ls ↔ ls = lines s :=
  ⟨CutIntoLines.eq_lines, fun h => h ▸ cutIntoLines_lines s⟩

end DocHarvest.Bytes
