import DocHarvest.Proofs.Yaml.Decoding
import DocHarvest.Proofs.Yaml.Refusals

/-!
# Reading Written Settings

A file that holds sections of settings is read as a table of tables, with the texts that are read
back, unless one of the values is refused: then the file cannot be read at all.

## Main definitions

* `Yaml.Section.Readable` — no value of a section is refused.

## Main results

* `Yaml.supply_sections` — such a file is decoded as it was written.
* `Yaml.fields?_sections` — a file whose values can all be read.
* `Yaml.fields?_refused` — a file with a value that is refused.
-/

namespace DocHarvest.Yaml

/-! ### Decoding -/

/-- Names are made of clean characters, and of ASCII. -/
theorem isClean_of_isName {name : List Char} (h : isName name = true) {c : Char} (hc : c ∈ name) :
    isClean c = true ∧ c.toNat < 128 := by
  simp only [isName, Bool.and_eq_true, List.all_eq_true] at h
  have hc := h.2 c hc
  have hsmall : 48 ≤ c.toNat ∧ c.toNat ≤ 122 := by
    obtain hc | hc := Bool.or_eq_true_iff.mp hc
    · have hranges : ((decide (c.val ≥ 'A'.val ∧ c.val ≤ 'Z'.val) ||
          (c.val ≥ 'a'.val && c.val ≤ 'z'.val)) || (c.val ≥ '0'.val && c.val ≤ '9'.val)) = true := hc
      simp only [Bool.or_eq_true, Bool.and_eq_true, decide_eq_true_eq, ge_iff_le,
        UInt32.le_iff_toNat_le, Char.reduceVal, UInt32.reduceToNat] at hranges
      simp only [Char.toNat]
      omega
    · rw [of_decide_eq_true hc]
      decide
  have hplain : isPlain c = true := by
    simp only [isPlain, Bool.or_eq_true, Bool.and_eq_true, decide_eq_true_eq]
    omega
  exact ⟨isClean_of_isPlain hplain, by omega⟩

/-- The line of an entry has clean characters only. -/
theorem Entry.isClean_line {entry : Entry} (h : IsTextName entry.name) {c : Char}
    (hc : c ∈ entry.line) : isClean c = true := by
  rw [Entry.line, List.mem_append, List.mem_cons, List.mem_cons] at hc
  obtain hc | rfl | rfl | hc := hc
  · exact (isClean_of_isName h.isName hc).1
  · rfl
  · rfl
  · unfold endLine at hc
    split at hc
    · exact isClean_written hc
    · obtain hc | hc := List.mem_append.mp hc
      · exact isClean_written hc
      · rw [List.mem_singleton.mp hc]
        rfl

/-- The text of a section is made of clean characters. -/
theorem Section.isClean_text {part : Section} (h : part.WellNamed) {c : Char}
    (hc : c ∈ part.text) : isClean c = true := by
  rw [Section.text, List.mem_append, List.mem_cons, List.mem_cons, lines, List.mem_flatMap] at hc
  obtain hc | rfl | rfl | ⟨entry, hentry, hc⟩ := hc
  · exact (isClean_of_isName h.name.isName hc).1
  · rfl
  · rfl
  · obtain hc | hc := List.mem_append.mp hc
    · rw [List.eq_of_mem_replicate hc]
      rfl
    · exact Entry.isClean_line (h.entries entry hentry) hc

/-- **A file of sections** is decoded as it was written. -/
theorem supply_sections {part : Section} {parts : List Section}
    (h : ∀ p ∈ part :: parts, p.WellNamed) :
    (supply (utf8Chars ((part :: parts).flatMap Section.text))).chars =
        (part :: parts).flatMap Section.text ∧
      (supply (utf8Chars ((part :: parts).flatMap Section.text))).sound = true ∧
      byteOrderMark ∉ (part :: parts).flatMap Section.text := by
  have hclean : ∀ c ∈ (part :: parts).flatMap Section.text, isClean c = true := by
    intro c hc
    obtain ⟨p, hp, hc⟩ := List.mem_flatMap.mp hc
    exact Section.isClean_text (h p hp) hc
  have hname := (h part List.mem_cons_self).name.isName
  obtain ⟨c, cs, hcs, hc⟩ : ∃ c cs, (part :: parts).flatMap Section.text = c :: cs ∧
      c.toNat < 128 := by
    rw [List.flatMap_cons, Section.text]
    cases hcons : part.name with
    | nil =>
      rw [hcons] at hname
      cases hname
    | cons c name =>
      rw [hcons] at hname
      exact ⟨c, _, rfl, (isClean_of_isName hname List.mem_cons_self).2⟩
  rw [hcs] at hclean ⊢
  have hallowed : ∀ d ∈ c :: cs, isAllowed d = true ∧ d ≠ byteOrderMark := by
    intro d hd
    simpa [isClean] using hclean d hd
  obtain ⟨hchars, hsound⟩ := supply_utf8Chars hc fun d hd => (hallowed d hd).1
  exact ⟨hchars, hsound, fun hmark => (hallowed _ hmark).2 rfl⟩

/-! ### Fields -/

/-- Whether no value of a section is refused. -/
def Section.Readable (part : Section) : Prop :=
  ∀ entry ∈ part.entries, ¬Refused entry.value

instance (part : Section) : Decidable part.Readable :=
  inferInstanceAs (Decidable (∀ entry ∈ part.entries, ¬Refused entry.value))

/-- A section with good names and values can be read back. -/
theorem Section.WellNamed.fits {part : Section} (h : part.WellNamed) (hvalues : part.Readable) :
    part.Fits :=
  ⟨h.name.toIsKeyName, fun entry hentry =>
    ⟨(h.entries entry hentry).toIsKeyName, hvalues entry hentry⟩⟩

/-- **A file whose values can all be read** holds the table of its sections. -/
theorem fields?_sections {part : Section} {parts : List Section}
    (h : ∀ p ∈ part :: parts, p.WellNamed) (hnames : ((part :: parts).map Section.name).Nodup)
    (hvalues : ∀ p ∈ part :: parts, p.Readable) :
    fields? (utf8Chars ((part :: parts).flatMap Section.text)) =
      some (table ((part :: parts).map Section.field)) := by
  obtain ⟨hchars, hsound, hclear⟩ := supply_sections h
  have htokens := tokens_of_sections hsound (by rwa [hchars])
    (fun p hp => (h p hp).fits (hvalues p hp)) hchars
  rw [fields?, htokens, document?_sections]
  exact documentFields?_sections h hnames

/-- The first element with a property splits a list. -/
theorem exists_first {α : Type} {p : α → Prop} [DecidablePred p] {l : List α}
    (h : ∃ a ∈ l, ¬p a) :
    ∃ before a after, l = before ++ a :: after ∧ ¬p a ∧ ∀ b ∈ before, p b := by
  obtain ⟨a, ha⟩ := Option.isSome_iff_exists.mp
    (List.find?_isSome.mpr (by simpa using h) : (l.find? fun a => !decide (p a)).isSome = true)
  obtain ⟨hp, before, after, hl, hbefore⟩ := List.find?_eq_some_iff_append.mp ha
  exact ⟨before, a, after, hl, by simpa using hp, fun b hb => by simpa using hbefore b hb⟩

/-- **A file with a value that is refused** cannot be read. -/
theorem fields?_refused {part : Section} {parts : List Section}
    (h : ∀ p ∈ part :: parts, p.WellNamed) (hvalue : ∃ p ∈ part :: parts, ¬p.Readable) :
    fields? (utf8Chars ((part :: parts).flatMap Section.text)) = none := by
  obtain ⟨hchars, hsound, hclear⟩ := supply_sections h
  obtain ⟨before, refused, after, hparts, hrefused, hbefore⟩ := exists_first hvalue
  obtain ⟨entries, entry, others, hentries, hentry, hvalues⟩ : ∃ entries entry others,
      refused.entries = entries ++ entry :: others ∧ Refused entry.value ∧
        ∀ e ∈ entries, ¬Refused e.value := by
    have hsome : ∃ e ∈ refused.entries, ¬¬Refused e.value := by
      simpa [Section.Readable] using hrefused
    obtain ⟨entries, entry, others, hentries, hentry, hvalues⟩ := exists_first hsome
    exact ⟨entries, entry, others, hentries, Decidable.not_not.mp hentry, hvalues⟩
  rw [hparts] at h
  have hrefusedNamed : refused.WellNamed := h refused (by simp)
  have hnames : ∀ e ∈ entries ++ entry :: others, IsTextName e.name :=
    hentries ▸ hrefusedNamed.entries
  have htext : (part :: parts).flatMap Section.text = before.flatMap Section.text ++
      (refused.name ++ ':' :: '\n' :: (lines entries ++ List.replicate step ' ') ++
        (entry.line ++ (lines others ++ after.flatMap Section.text))) := by
    have hlines : lines (entries ++ entry :: others) =
        lines entries ++ (List.replicate step ' ' ++ (entry.line ++ lines others)) := by
      rw [← lines_cons, lines, lines, lines, List.flatMap_append]
    rw [hparts, List.flatMap_append, List.flatMap_cons, Section.text, hentries, hlines]
    simp
  have htokens := tokens_of_refused hsound (by rwa [hchars])
    (fun p hp => (h p (by simp [hp])).fits (hbefore p hp)) hrefusedNamed.name.toIsKeyName
    (fun e he => ⟨(hnames e (by simp [he])).toIsKeyName, hvalues e he⟩)
    (hnames entry (by simp)).toIsKeyName hentry (hchars.trans htext)
  rw [fields?, htokens, document?_refused]
  rfl

end DocHarvest.Yaml
