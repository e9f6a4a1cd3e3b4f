import DocHarvest.Catalog
import DocHarvest.Proofs.Bytes.Encoding

/-!
# What a Catalog Groups

A catalog groups documentation strings by their texts. Its messages are the distinct texts in
the order in which they first came, each with the places of its strings in the order in which
these came, and its index finds every text at the position of its message. A string whose text
is not UTF-8 is refused, and the catalog is then as if it had never been offered.

Taken apart again, the messages give back the strings that were added, each as often as it was
added and none besides.

## Main definitions

* `Catalog.Groups` — the messages and the index of a catalog are those of the given strings.
* `Catalog.offerAll` — strings are offered one after another, also after one was refused.
* `Message.docStrings`, `Catalog.docStrings` — the documentation strings behind the messages.

## Main results

* `Catalog.Groups.record` — the catalog with one string more groups one string more.
* `Catalog.offerAll_groups_accepted` — a catalog groups the strings that it has accepted.
* `Catalog.docStrings_addAll` — a catalog counts every string that was added once.
-/

namespace DocHarvest

namespace DocString

/-- The texts of documentation strings, each once, in the order in which they first occur. -/
def texts (ds : List DocString) : List Bytes :=
  (ds.map DocString.text).eraseDups

/-- The documentation strings with the given text, in their order. -/
def sharing (text : Bytes) (ds : List DocString) : List DocString :=
  ds.filter fun d => d.text = text

variable {ds : List DocString} {d : DocString} {text : Bytes}

/-- A text is among those of some strings when one of them has it. -/
theorem mem_texts : text ∈ texts ds ↔ ∃ d ∈ ds, d.text = text := by
  simp [texts]

/-- A string whose text is there already adds no text. -/
theorem texts_append_of_mem (h : d.text ∈ texts ds) : texts (ds ++ [d]) = texts ds := by
  obtain ⟨other, hmem, htext⟩ := mem_texts.mp h
  have hknown : [d.text].removeAll (ds.map DocString.text) = [] := by
    simp only [List.removeAll, List.filter_eq_nil_iff, List.mem_singleton]
    rintro _ rfl
    simpa using ⟨other, hmem, htext⟩
  rw [texts, List.map_append, List.map_singleton, List.eraseDups_append, hknown,
    List.eraseDups_nil, List.append_nil, texts]

/-- A string with a new text adds it at the end. -/
theorem texts_append_of_not_mem (h : d.text ∉ texts ds) :
    texts (ds ++ [d]) = texts ds ++ [d.text] := by
  have hnew : [d.text].removeAll (ds.map DocString.text) = [d.text] := by
    simp only [List.removeAll, List.filter_eq_self, List.mem_singleton]
    rintro _ rfl
    simpa [mem_texts] using h
  rw [texts, List.map_append, List.map_singleton, List.eraseDups_append, hnew, texts]
  rfl

/-- A string joins those that share its text, at the end. -/
theorem sharing_append_self : sharing d.text (ds ++ [d]) = sharing d.text ds ++ [d] := by
  simp [sharing]

/-- A string does not join those with another text. -/
theorem sharing_append_ne (h : d.text ≠ text) : sharing text (ds ++ [d]) = sharing text ds := by
  simp [sharing, h]

/-- No string shares a text that none of them has. -/
theorem sharing_eq_nil (h : text ∉ texts ds) : sharing text ds = [] := by
  simpa [sharing, mem_texts] using h

/-- Some string shares a text that one of them has. -/
theorem sharing_ne_nil (h : text ∈ texts ds) : sharing text ds ≠ [] := by
  obtain ⟨d, hmem, htext⟩ := mem_texts.mp h
  exact List.ne_nil_of_mem (List.mem_filter.mpr ⟨hmem, decide_eq_true htext⟩)

/-- The first text comes first, and does not come again. -/
theorem texts_cons (d : DocString) (others : List DocString) :
    texts (d :: others) = d.text :: texts (others.filter fun e => !decide (e.text = d.text)) := by
  have hother : (fun b => !b == d.text) ∘ DocString.text = fun e => !decide (e.text = d.text) := by
    funext e
    by_cases h : e.text = d.text <;> simp [h]
  rw [texts, List.map_cons, List.eraseDups_cons, texts, List.filter_map, hother]

/-- Strings grouped by their texts are the same strings in another order. Those with the first text
come first, and the others, which are fewer, are grouped likewise. -/
theorem flatMap_sharing_perm (ds : List DocString) :
    ((texts ds).flatMap fun text => sharing text ds).Perm ds := by
  induction hlength : ds.length using Nat.strongRecOn generalizing ds with
  | ind n ih =>
  cases ds with
  | nil => exact .refl _
  | cons d others =>
    let rest := others.filter fun e => !decide (e.text = d.text)
    have hfewer : rest.length < n := by
      rw [← hlength, List.length_cons]
      exact Nat.lt_succ_of_le (List.length_filter_le _ _)
    have hrest : rest = (d :: others).filter fun e => !decide (e.text = d.text) := by
      simp [rest]
    have hsame : ∀ text ∈ texts rest, sharing text (d :: others) = sharing text rest := by
      intro text hmem
      obtain ⟨e, he, rfl⟩ := mem_texts.mp hmem
      have hne : e.text ≠ d.text := by simpa using (List.mem_filter.mp he).2
      rw [hrest, sharing, sharing, List.filter_filter]
      refine List.filter_congr fun f _ => ?_
      by_cases hf : f.text = e.text <;> simp [hf, hne]
    rw [texts_cons, List.flatMap_cons, List.flatMap_def, List.map_congr_left hsame,
      ← List.flatMap_def]
    refine ((ih _ hfewer rest rfl).append_left _).trans ?_
    rw [hrest]
    exact List.filter_append_perm _ _

end DocString

/-- The message of a text in a catalog of the given strings. -/
def Message.ofSharing (ds : List DocString) (text : Bytes) : Message where
  text := text
  sources := (DocString.sharing text ds).map DocString.source
  lines := (DocString.sharing text ds).map DocString.line

namespace Message

variable {ds : List DocString} {d : DocString} {text : Bytes}

/-- A string adds its place to the message with its text. -/
theorem ofSharing_append_self :
    ofSharing (ds ++ [d]) d.text = (ofSharing ds d.text).addPlace d.occurrence := by
  simp [ofSharing, addPlace, DocString.sharing_append_self, DocString.occurrence]

/-- A string leaves the messages with other texts alone. -/
theorem ofSharing_append_ne (h : d.text ≠ text) :
    ofSharing (ds ++ [d]) text = ofSharing ds text := by
  simp [ofSharing, DocString.sharing_append_ne h]

/-- The places of a message are those of the strings with its text, in order. -/
theorem occurrences_ofSharing : (ofSharing ds text).occurrences =
    (DocString.sharing text ds).map DocString.occurrence := by
  simp only [occurrences, ofSharing, List.zipWith_map, List.zipWith_self]
  rfl

end Message

namespace Catalog

/-- **A catalog groups documentation strings**: it has one message for each of their texts, and
its index gives the positions of the texts and no others. -/
structure Groups (header : CatalogHeader) (ds : List DocString) (catalog : Catalog) : Prop where
  header : catalog.header = header
  messages : catalog.messages = (DocString.texts ds).map (Message.ofSharing ds)
  index : ∀ text position, catalog.index.lookup text = some position ↔
    (DocString.texts ds)[position]? = some text

/-- An empty catalog groups no strings. -/
theorem groups_nil (header : CatalogHeader) : Groups header [] { header } :=
  ⟨rfl, rfl, by simp [DocString.texts]⟩

/-- What stands in a list with one more element: what stood there, or the element at its end. -/
theorem getElem?_concat_eq_some_iff {α : Type} {l : List α} {a b : α} {i : Nat} :
    (l ++ [a])[i]? = some b ↔ l[i]? = some b ∨ i = l.length ∧ a = b := by
  rcases Nat.lt_trichotomy i l.length with hlt | rfl | hgt
  · simp [List.getElem?_append_left hlt, Nat.ne_of_lt hlt]
  · simp
  · have hlong : (l ++ [a]).length ≤ i := by
      rw [List.length_append, List.length_singleton]
      exact hgt
    rw [List.getElem?_eq_none hlong, List.getElem?_eq_none (Nat.le_of_lt hgt)]
    simp [Nat.ne_of_gt hgt]

namespace Groups

variable {header : CatalogHeader} {ds : List DocString} {catalog : Catalog}

/-- The index finds no text exactly when there is no string with it. -/
theorem lookup_eq_none_iff (h : Groups header ds catalog) {text : Bytes} :
    catalog.index.lookup text = none ↔ text ∉ DocString.texts ds := by
  rw [Option.eq_none_iff_forall_ne_some, List.mem_iff_getElem?, not_exists]
  exact forall_congr' fun position => not_congr (h.index text position)

/-- **The catalog with one string more groups one string more.** -/
theorem record (h : Groups header ds catalog) (d : DocString) :
    Groups header (ds ++ [d]) (catalog.record d) := by
  unfold Catalog.record
  cases hlookup : catalog.index.lookup d.text with
  | some position =>
    have hposition := (h.index _ _).mp hlookup
    have htexts := DocString.texts_append_of_mem (List.mem_of_getElem? hposition)
    refine ⟨h.header, ?_, by rw [htexts]; exact h.index⟩
    rw [htexts, h.messages]
    refine List.ext_getElem? fun i => ?_
    simp only [List.getElem?_modify, List.getElem?_map]
    cases htext : (DocString.texts ds)[i]? with
    | none => simp
    | some text =>
      by_cases hi : position = i
      · obtain rfl : d.text = text := by simpa [← hi, hposition] using htext
        simp [hi, Message.ofSharing_append_self]
      · have hne : d.text ≠ text := by
          rintro rfl
          rw [(h.index _ _).mpr htext] at hlookup
          exact hi (Option.some.inj hlookup).symm
        simp [hi, Message.ofSharing_append_ne hne]
  | none =>
    have hnew := h.lookup_eq_none_iff.mp hlookup
    have htexts := DocString.texts_append_of_not_mem hnew
    refine ⟨h.header, ?_, fun text position => ?_⟩
    · have hsame : (DocString.texts ds).map (Message.ofSharing (ds ++ [d])) =
          (DocString.texts ds).map (Message.ofSharing ds) :=
        List.map_congr_left fun text hmem =>
          Message.ofSharing_append_ne fun heq => hnew (heq ▸ hmem)
      rw [htexts, List.map_append, hsame, h.messages, List.map_singleton, Message.ofSharing,
        DocString.sharing_append_self, DocString.sharing_eq_nil hnew]
      rfl
    · have hlength : catalog.messages.length = (DocString.texts ds).length := by
        rw [h.messages, List.length_map]
      have hnowhere : (DocString.texts ds)[position]? ≠ some d.text :=
        fun hfound => hnew (List.mem_of_getElem? hfound)
      rw [htexts, List.lookup_cons, hlength, getElem?_concat_eq_some_iff]
      by_cases htext : text = d.text
      · simp [htext, hnowhere, eq_comm]
      · have hother : (text == d.text) = false := beq_eq_false_iff_ne.mpr htext
        simp [hother, h.index, Ne.symm htext]

end Groups

/-! ### Strings that are added and strings that are refused -/

section Adding

variable {header : CatalogHeader} {held ds : List DocString} {d : DocString}
  {catalog larger : Catalog}

/-- A string whose text is UTF-8 is recorded. -/
theorem add_of_isText (h : Utf8.IsText d.text) : catalog.add d = .ok (catalog.record d) :=
  if_pos (Utf8.isValid_iff.mpr h)

/-- A string whose text is not UTF-8 is refused, with its place. -/
theorem add_of_not_isText (h : ¬ Utf8.IsText d.text) :
    catalog.add d = .error ⟨d.source, d.line⟩ :=
  if_neg (mt Utf8.isValid_iff.mp h)

/-- A catalog that has taken strings groups them together with those it had. -/
theorem Groups.addAll (h : Groups header held catalog)
    (hadd : ds.foldlM add catalog = .ok larger) : Groups header (held ++ ds) larger := by
  induction ds generalizing held catalog with
  | nil =>
    obtain rfl := Except.ok.inj hadd
    rwa [List.append_nil]
  | cons d others ih =>
    rw [List.foldlM_cons] at hadd
    by_cases htext : Utf8.IsText d.text
    · rw [add_of_isText htext] at hadd
      have hmore := ih (h.record d) hadd
      rwa [List.append_assoc] at hmore
    · rw [add_of_not_isText htext] at hadd
      cases hadd

/-- Offers documentation strings one after another, also after one was refused: for each of
them the refusal, if there was one, and the catalog in the end. -/
def offerAll : List DocString → Catalog → List (Option Refusal) × Catalog
  | [], catalog => ([], catalog)
  | d :: others, catalog =>
    match catalog.add d with
    | .ok larger => ((offerAll others larger).1.cons none, (offerAll others larger).2)
    | .error refusal =>
      ((offerAll others catalog).1.cons (some refusal), (offerAll others catalog).2)

/-- Strings are offered one after another. -/
theorem offerAll_append (before after : List DocString) (catalog : Catalog) :
    (offerAll (before ++ after) catalog).2 = (offerAll after (offerAll before catalog).2).2 := by
  induction before generalizing catalog with
  | nil => rfl
  | cons d others ih =>
    simp only [List.cons_append, offerAll]
    cases catalog.add d with
    | ok larger => exact ih larger
    | error refusal => exact ih catalog

/-- Strings are refused for their own texts, and a refused string leaves no trace. -/
theorem offerAll_eq (ds : List DocString) (catalog : Catalog) : ∃ final,
    offerAll ds catalog =
      (ds.map fun d => if Utf8.IsText d.text then none else some ⟨d.source, d.line⟩, final) ∧
    (ds.filter fun d => Utf8.IsText d.text).foldlM add catalog = .ok final := by
  induction ds generalizing catalog with
  | nil => exact ⟨catalog, rfl, rfl⟩
  | cons d others ih =>
    by_cases htext : Utf8.IsText d.text
    · obtain ⟨final, hoffer, hadd⟩ := ih (catalog.record d)
      refine ⟨final, ?_, ?_⟩
      · simp [offerAll, add_of_isText htext, hoffer, htext]
      · rw [List.filter_cons_of_pos (by simpa using htext), List.foldlM_cons,
          add_of_isText htext]
        exact hadd
    · obtain ⟨final, hoffer, hadd⟩ := ih catalog
      refine ⟨final, ?_, ?_⟩
      · simp [offerAll, add_of_not_isText htext, hoffer, htext]
      · rw [List.filter_cons_of_neg (by simpa using htext)]
        exact hadd

end Adding

/-- **A catalog groups the strings that it has accepted.** It refuses exactly the strings whose
texts are not UTF-8, and is as if these had not been offered. Its messages are the distinct
texts in the order in which they first came; each has the places of its strings in their order,
in two lists of one length that is not zero; and the index finds each text at the position of
its message and finds nothing else. -/
theorem offerAll_groups_accepted (header : CatalogHeader) (ds : List DocString) :
    let accepted := ds.filter fun d => Utf8.IsText d.text
    ∃ catalog, offerAll ds { header } =
        (ds.map fun d => if Utf8.IsText d.text then none else some ⟨d.source, d.line⟩, catalog) ∧
      accepted.foldlM add { header } = .ok catalog ∧
      catalog.header = header ∧
      catalog.messages.map Message.text = (accepted.map DocString.text).eraseDups ∧
      (∀ message ∈ catalog.messages,
        message.occurrences =
            (accepted.filter fun d => d.text = message.text).map DocString.occurrence ∧
          message.sources.length = message.lines.length ∧ message.sources.length ≠ 0) ∧
      catalog.size = (accepted.map DocString.text).eraseDups.length ∧
      ∀ text position, catalog.index.lookup text = some position ↔
        (catalog.messages.map Message.text)[position]? = some text := by
  intro accepted
  obtain ⟨catalog, hoffer, hadd⟩ := offerAll_eq ds { header }
  have hgroups := (groups_nil header).addAll hadd
  rw [List.nil_append] at hgroups
  have htexts : catalog.messages.map Message.text = DocString.texts accepted := by
    rw [hgroups.messages, List.map_map]
    exact List.map_id _
  refine ⟨catalog, hoffer, hadd, hgroups.header, htexts, fun message hmem => ?_, ?_, ?_⟩
  · rw [hgroups.messages] at hmem
    obtain ⟨text, htext, rfl⟩ := List.mem_map.mp hmem
    refine ⟨Message.occurrences_ofSharing, ?_, ?_⟩
    · simp [Message.ofSharing]
    · simpa [Message.ofSharing] using DocString.sharing_ne_nil htext
  · rw [size, hgroups.messages, List.length_map]
    rfl
  · rw [htexts]
    exact hgroups.index

end Catalog

/-! ### Taking a catalog apart -/

/-- The documentation strings that a message stands for, one for each place. -/
def Message.docStrings (message : Message) : List DocString :=
  message.occurrences.map fun place => ⟨message.text, place.source, place.line⟩

namespace Catalog

/-- The documentation strings that the messages of a catalog stand for. -/
def docStrings (catalog : Catalog) : List DocString :=
  catalog.messages.flatMap Message.docStrings

/-- The strings of a message are those with its text. -/
theorem docStrings_ofSharing (ds : List DocString) (text : Bytes) :
    (Message.ofSharing ds text).docStrings = DocString.sharing text ds := by
  rw [Message.docStrings, Message.occurrences_ofSharing, List.map_map]
  refine (List.map_congr_left fun d hmem => ?_).trans (List.map_id _)
  have htext : d.text = text := by simpa using (List.mem_filter.mp hmem).2
  simp [Message.ofSharing, DocString.occurrence, ← htext]

/-- **A catalog counts every string that was added once.** -/
theorem docStrings_addAll {header : CatalogHeader} {catalog : Catalog} {ds : List DocString}
    (h : ds.foldlM add { header } = .ok catalog) : catalog.docStrings.Perm ds := by
  have hgroups := (groups_nil header).addAll h
  rw [docStrings, hgroups.messages, List.flatMap_map]
  simp only [docStrings_ofSharing, List.nil_append]
  exact DocString.flatMap_sharing_perm ds

end Catalog

end DocHarvest
