import Mathlib.Data.List.Basic
import DocHarvest.Proofs.Source.Continuations
import DocHarvest.Proofs.Source.LineEnds

/-!
# Documentation with Two-Byte Line Ends

A source with two-byte line ends has the documentation strings of the source with plain line feeds,
on the same lines, and ends with the same error. Their texts are another matter. A scan takes a
backslash before a two-byte line end for a line that goes on, but `joinLines` looks for a backslash
right before a line feed. In a text with two-byte line ends there is none, so no line is ever
joined. The texts therefore agree, line ends apart, exactly when there was nothing to join.

## Main definitions

* `rawDocStrings` — the documentation strings of a source with no line joined.

## Main results

* `joinLines_crlf` — no line of a text with two-byte line ends is joined.
* `joinLines_eq_self_iff` — when there is nothing to join.
* `docStrings_crlf_eq_iff` — exactly when documentation does not depend on the way in which lines
  end.
-/

namespace DocHarvest

/-- A documentation string with its text changed. -/
def DocString.onText (f : Bytes → Bytes) (d : DocString) : DocString :=
  { d with text := f d.text }

namespace Source

open Bytes (crlf ofCrlf)

/-! ### Joining lines -/

/-- A backslash right before a line feed. -/
def continuation : Bytes := [Byte.backslash, Byte.lineFeed]

/-- **No line of a text with two-byte line ends is joined.** -/
theorem joinLines_crlf (s : Bytes) : joinLines (crlf s) = crlf s := by
  have hne : Byte.carriageReturn ≠ Byte.backslash ∧ Byte.lineFeed ≠ Byte.backslash := by decide
  induction s with
  | nil => rfl
  | cons b s ih =>
    by_cases hb : b = Byte.lineFeed
    · rw [hb, Bytes.crlf_lineFeed, joinLines_plain _ hne.1, joinLines_plain _ hne.2, ih]
    · rw [Bytes.crlf_cons hb, joinLines.eq_3, ih]
      intro rest _ hrest
      exact Bytes.head?_crlf_ne s (hrest ▸ rfl)

/-- Joining lines makes a text shorter when there is something to join. -/
theorem length_joinLines (s : Bytes) :
    (joinLines s).length ≤ s.length ∧
      (continuation <:+: s → (joinLines s).length < s.length) := by
  fun_induction joinLines s with
  | case1 => simp [continuation]
  | case2 rest ih =>
    simp only [List.length_cons]
    omega
  | case3 b rest hne ih =>
    simp only [List.length_cons, Nat.add_le_add_iff_right, Nat.add_lt_add_iff_right]
    refine ⟨ih.1, fun h => ih.2 ?_⟩
    rcases List.infix_cons_iff.mp h with ⟨more, hmore⟩ | h
    · obtain ⟨hb, hrest⟩ := List.cons.inj hmore
      exact absurd hrest.symm (hne more hb.symm)
    · exact h

/-- **When there is nothing to join.** -/
theorem joinLines_eq_self_iff {s : Bytes} : joinLines s = s ↔ ¬ continuation <:+: s := by
  constructor
  · intro heq h
    have hlt := (length_joinLines s).2 h
    rw [heq] at hlt
    exact absurd hlt (Nat.lt_irrefl _)
  · intro h
    fun_induction joinLines s with
    | case1 => rfl
    | case2 rest ih => exact absurd (List.prefix_append continuation rest).isInfix h
    | case3 b rest hne ih => rw [ih fun hmem => h (List.infix_cons hmem)]

/-! ### Documentation strings before lines are joined -/

/-- The documentation string that a token holds, with no line joined. -/
def rawDocString? (name : Bytes) (token : Token) : Option DocString :=
  if token.kind = .string then
    (docBody? token.text).map fun text => ⟨text, name, token.line⟩
  else none

/-- The documentation strings of a source in order, with no line joined. -/
def rawDocStrings (source : Source) : List DocString :=
  source.scan.1.filterMap (rawDocString? source.name)

/-- The text of a documentation string is that of its literal with the continued lines joined. -/
theorem docString?_eq_rawDocString? (name : Bytes) (token : Token) :
    docString? name token = (rawDocString? name token).map (·.onText joinLines) := by
  unfold docString? rawDocString?
  split
  · rw [docText?_eq_docBody?, Option.map_map, Option.map_map]
    rfl
  · rfl

/-- So it is with all strings of a source. -/
theorem docStrings_eq_rawDocStrings (source : Source) :
    source.docStrings.1 = source.rawDocStrings.map (·.onText joinLines) := by
  rw [rawDocStrings, List.map_filterMap, docStrings]
  exact congrArg (source.scan.1.filterMap ·) (funext (docString?_eq_rawDocString? source.name))

/-- The body of a literal with two-byte line ends. -/
theorem docBody?_crlf {source : Source} {token : Token} (h : token ∈ source.scan.1)
    (hkind : token.kind = .string) :
    docBody? (crlf token.text) = (docBody? token.text).map crlf := by
  have hquotes : crlf docQuotes = docQuotes := by decide
  by_cases hq : docQuotes <+: token.text
  · obtain ⟨body, -, -, hbody⟩ := exists_body_of_docQuotes h hkind hq
    rw [hbody, Bytes.crlf_append, Bytes.crlf_append, hquotes, docBody?_quoted, docBody?_quoted,
      Option.map_some]
  · have hnone : ∀ literal, ¬ docQuotes <+: literal → docBody? literal = none := by
      intro literal hpre
      rw [← List.isPrefixOf_iff_prefix] at hpre
      simp [docBody?, hpre]
    have hq' : ¬ docQuotes <+: crlf token.text := by
      rwa [Bytes.prefix_crlf_iff (by decide) (by decide)]
    rw [hnone _ hq, hnone _ hq', Option.map_none]

/-- What a token with two-byte line ends documents: the same body, no line of which is joined. -/
theorem docString?_crlf {source : Source} {token : Token} (h : token ∈ source.scan.1)
    (name : Bytes) :
    docString? name token.crlf = (rawDocString? name token).map (·.onText crlf) := by
  unfold docString? rawDocString?
  by_cases hkind : token.kind = .string
  · have htext : docText? token.crlf.text = (docBody? token.text).map crlf := by
      rw [docText?_eq_docBody?, Token.crlf, docBody?_crlf h hkind, Option.map_map]
      exact congrArg (Option.map · _) (funext joinLines_crlf)
    have hkind' : token.crlf.kind = .string := hkind
    rw [if_pos hkind, if_pos hkind', htext, Option.map_map, Option.map_map]
    rfl
  · have hkind' : ¬ token.crlf.kind = .string := hkind
    rw [if_neg hkind, if_neg hkind', Option.map_none]

/-- **Line ends of two bytes** give the same strings, with line ends of two bytes in their texts. -/
theorem docStrings_crlf (source : Source) (h : Byte.carriageReturn ∉ source.bytes) :
    docStrings { source with bytes := crlf source.bytes } =
      (source.rawDocStrings.map (·.onText crlf), source.docStrings.2) := by
  rw [docStrings, docStrings, scan_crlf source h, rawDocStrings, List.map_filterMap]
  dsimp only
  rw [List.filterMap_map]
  refine Prod.ext (List.filterMap_congr fun token hmem => ?_) rfl
  exact docString?_crlf hmem source.name

/-- A documentation string that joining lines does not change. -/
theorem onText_joinLines_eq_iff {d : DocString} :
    d.onText joinLines = d ↔ ¬ continuation <:+: d.text := by
  rw [← joinLines_eq_self_iff]
  obtain ⟨text, source, line⟩ := d
  simp [DocString.onText]

/-- **When documentation does not depend on the way in which lines end.** When every line feed of a
source without carriage returns is written as a carriage return and a line feed, the documentation
strings are as many, on the same lines, and the same error follows them. With the line feeds had
back, the texts are the bodies of the literals with no line joined. So they are the texts of the
source exactly when no body holds a backslash right before a line feed. -/
theorem docStrings_crlf_eq_iff (name : Bytes) {s : Bytes} (ending : Ending)
    (h : Byte.carriageReturn ∉ s) :
    (docStrings ⟨name, crlf s, ending⟩).1.length = (docStrings ⟨name, s, ending⟩).1.length ∧
    (docStrings ⟨name, crlf s, ending⟩).1.map DocString.line =
      (docStrings ⟨name, s, ending⟩).1.map DocString.line ∧
    (docStrings ⟨name, crlf s, ending⟩).2 = (docStrings ⟨name, s, ending⟩).2 ∧
    (docStrings ⟨name, s, ending⟩).1 =
      (rawDocStrings ⟨name, s, ending⟩).map (·.onText joinLines) ∧
    (docStrings ⟨name, crlf s, ending⟩).1.map (·.onText ofCrlf) =
      rawDocStrings ⟨name, s, ending⟩ ∧
    ((docStrings ⟨name, crlf s, ending⟩).1.map (·.onText ofCrlf) =
        (docStrings ⟨name, s, ending⟩).1 ↔
      ∀ d ∈ rawDocStrings ⟨name, s, ending⟩, ¬ [Byte.backslash, Byte.lineFeed] <:+: d.text) := by
  have hcrlf : docStrings ⟨name, crlf s, ending⟩ =
      ((rawDocStrings ⟨name, s, ending⟩).map (·.onText crlf),
        (docStrings ⟨name, s, ending⟩).2) :=
    docStrings_crlf ⟨name, s, ending⟩ h
  have hraw := docStrings_eq_rawDocStrings ⟨name, s, ending⟩
  have hback : ((rawDocStrings ⟨name, s, ending⟩).map (·.onText crlf)).map (·.onText ofCrlf) =
      rawDocStrings ⟨name, s, ending⟩ := by
    rw [List.map_map]
    refine List.map_id'' (fun d => ?_) _
    simp [DocString.onText]
  rw [hcrlf, hback]
  refine ⟨?_, ?_, rfl, hraw, rfl, ?_⟩
  · rw [hraw, List.length_map, List.length_map]
  · rw [hraw, List.map_map, List.map_map]
    rfl
  · rw [hraw]
    constructor
    · intro heq d hd
      have hmap := heq.symm.trans (List.map_id (rawDocStrings ⟨name, s, ending⟩)).symm
      exact onText_joinLines_eq_iff.mp (List.map_inj_left.mp hmap d hd)
    · intro hall
      refine (List.map_id (rawDocStrings ⟨name, s, ending⟩)).symm.trans ?_
      exact List.map_inj_left.mpr fun d hd => (onText_joinLines_eq_iff.mpr (hall d hd)).symm

/-- Documentation of two lines, with an escape and nothing to join. -/
theorem docStrings_crlf_eq_iff_unjoined :
    (docStrings ⟨utf8 "a.py", crlf (utf8 "x\n\"\"\"a\nb\\t\"\"\""), .complete⟩).1.map
        (·.onText ofCrlf) = [⟨utf8 "a\nb\\t", utf8 "a.py", 2⟩] := by
  obtain ⟨-, -, -, -, -, hiff⟩ := @docStrings_crlf_eq_iff (utf8 "a.py")
    (utf8 "x\n\"\"\"a\nb\\t\"\"\"") .complete (by decide)
  have hraw : rawDocStrings ⟨utf8 "a.py", utf8 "x\n\"\"\"a\nb\\t\"\"\"", .complete⟩ =
      [⟨utf8 "a\nb\\t", utf8 "a.py", 2⟩] := by decide
  rw [hraw] at hiff
  refine (hiff.mpr fun d hd => ?_).trans rfl
  obtain rfl := List.mem_singleton.mp hd
  exact joinLines_eq_self_iff.mp (by decide)

/-- A line that goes on is joined to the next in a source with line feeds, and is not joined in the
source with two-byte line ends. -/
theorem docStrings_crlf_continued :
    Byte.carriageReturn ∉ utf8 "\"\"\"x\\\ny\"\"\"" ∧
    docStrings ⟨utf8 "a.py", utf8 "\"\"\"x\\\ny\"\"\"", .complete⟩ =
      ([⟨utf8 "xy", utf8 "a.py", 1⟩], none) ∧
    docStrings ⟨utf8 "a.py", crlf (utf8 "\"\"\"x\\\ny\"\"\""), .complete⟩ =
      ([⟨utf8 "x\\\r\ny", utf8 "a.py", 1⟩], none) ∧
    ofCrlf (utf8 "x\\\r\ny") ≠ utf8 "xy" := by
  decide

end Source

end DocHarvest
