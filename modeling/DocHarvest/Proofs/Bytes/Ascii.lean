import DocHarvest.Proofs.Bytes.Encoding

/-!
# ASCII Bytes in UTF-8

A byte below 0x80 is a character of its own wherever it stands in UTF-8: it is never a part of the
encoding of another character. So a text may be cut at such a byte, and what stands before and after
it is a text again; and such bytes are as many as the characters they encode.

## Main results

* `Utf8.encoded_eq_of_mem` — an ASCII byte belongs to the encoding of one character only.
* `Utf8.isText_append_cons_iff` — a text is cut at an ASCII byte.
* `Utf8.count_utf8Chars` — counting an ASCII byte counts the character.
-/

namespace DocHarvest.Utf8

/-! ### Encodings of one character -/

/-- An ASCII character is encoded as one byte. -/
theorem encoded_ascii {c : Char} (h : c.toNat < 0x80) :
    String.utf8EncodeChar c = [UInt8.ofNat c.toNat] := by
  simp [String.utf8EncodeChar, show c.toNat ≤ 0x7f by omega]

/-- Every byte that encodes a character beyond ASCII is beyond ASCII. A leading byte is at least
0xC0, and every byte after it has its highest bit set. -/
theorem le_of_mem_encoded {c : Char} (h : 0x80 ≤ c.toNat) {b : UInt8}
    (hb : b ∈ String.utf8EncodeChar c) : 0x80 ≤ b.toNat := by
  have hbyte : ∀ {n : Nat} (low : Nat), 0x80 ≤ low → n + low < 256 →
      0x80 ≤ (UInt8.ofNat (n + low)).toNat := by
    intro n low hlow hsmall
    rw [UInt8.toNat_ofNat_of_lt' hsmall]
    omega
  rw [Char.toNat] at h
  simp only [String.utf8EncodeChar] at hb
  rw [if_neg (by omega)] at hb
  split at hb
  · simp only [List.mem_cons, List.not_mem_nil, or_false] at hb
    rcases hb with rfl | rfl <;> exact hbyte _ (by omega) (by omega)
  · split at hb
    · simp only [List.mem_cons, List.not_mem_nil, or_false] at hb
      rcases hb with rfl | rfl | rfl <;> exact hbyte _ (by omega) (by omega)
    · simp only [List.mem_cons, List.not_mem_nil, or_false] at hb
      rcases hb with rfl | rfl | rfl | rfl <;> exact hbyte _ (by omega) (by omega)

/-- **An ASCII byte belongs to the encoding of one character only**, and is all of it. -/
theorem encoded_eq_of_mem {c : Char} {b : UInt8} (hascii : b.toNat < 0x80)
    (hb : b ∈ String.utf8EncodeChar c) :
    c = Char.ofNat b.toNat ∧ String.utf8EncodeChar c = [b] := by
  have hc : c.toNat < 0x80 := by
    rcases Nat.lt_or_ge c.toNat 0x80 with hlt | hge
    · exact hlt
    · have hle := le_of_mem_encoded hge hb
      omega
  have hencoded := encoded_ascii hc
  rw [hencoded, List.mem_singleton] at hb
  have hcode : b.toNat = c.toNat := by
    rw [hb, UInt8.toNat_ofNat_of_lt' (Nat.lt_trans hc (by decide))]
  exact ⟨by rw [hcode, Char.ofNat_toNat], by rw [hencoded, hb]⟩

/-- The encoding of an ASCII character, given by its byte. -/
theorem encoded_ofNat {b : UInt8} (hascii : b.toNat < 0x80) :
    String.utf8EncodeChar (Char.ofNat b.toNat) = [b] := by
  have hone : one? b = some (Char.ofNat b.toNat) := by
    simp [one?, UInt8.lt_iff_toNat_lt, hascii]
  exact encoded_of_one? hone

/-! ### Texts cut at ASCII bytes -/

/-- Nothing is text. -/
theorem isText_nil : IsText [] :=
  ⟨[], rfl⟩

/-- Encoded strings are text. -/
theorem isText_utf8 (s : String) : IsText (utf8 s) :=
  ⟨s.toList, rfl⟩

/-- Text followed by text is text. -/
theorem IsText.append {s t : Bytes} (hs : IsText s) (ht : IsText t) : IsText (s ++ t) := by
  obtain ⟨cs, rfl⟩ := hs
  obtain ⟨ds, rfl⟩ := ht
  exact ⟨cs ++ ds, utf8Chars_append cs ds⟩

/-- Texts one after another are text. -/
theorem isText_flatten {texts : List Bytes} (h : ∀ text ∈ texts, IsText text) :
    IsText texts.flatten := by
  induction texts with
  | nil => exact isText_nil
  | cons text texts ih =>
    obtain ⟨htext, htexts⟩ := List.forall_mem_cons.mp h
    exact htext.append (ih htexts)

/-- **A text is cut at an ASCII byte**: what stands before the byte and after it are texts. -/
theorem isText_append_cons_iff {s t : Bytes} {b : UInt8} (hascii : b.toNat < 0x80) :
    IsText (s ++ b :: t) ↔ IsText s ∧ IsText t := by
  constructor
  · rintro ⟨cs, hcs⟩
    induction cs generalizing s with
    | nil => simp at hcs
    | cons c cs ih =>
      rw [utf8Chars_cons, List.append_eq_append_iff] at hcs
      rcases hcs with ⟨mid, rfl, hrest⟩ | ⟨mid, hencoded, hrest⟩
      · obtain ⟨hmid, ht⟩ := ih hrest
        exact ⟨IsText.append ⟨[c], by simp⟩ hmid, ht⟩
      · cases mid with
        | nil =>
          obtain ⟨-, ht⟩ := ih (s := []) hrest.symm
          exact ⟨⟨[c], by simpa using hencoded⟩, ht⟩
        | cons b' mid =>
          obtain ⟨rfl, rfl⟩ := List.cons.inj hrest
          have hone := (encoded_eq_of_mem (c := c) hascii (by rw [hencoded]; simp)).2
          have hlength := congrArg List.length (hone.symm.trans hencoded)
          simp only [List.length_append, List.length_cons, List.length_nil] at hlength
          obtain rfl : s = [] := List.length_eq_zero_iff.mp (by omega)
          obtain rfl : mid = [] := List.length_eq_zero_iff.mp (by omega)
          exact ⟨isText_nil, cs, rfl⟩
  · rintro ⟨hs, ht⟩
    have hb : IsText [b] := ⟨[Char.ofNat b.toNat], by simp [encoded_ofNat hascii]⟩
    exact hs.append (hb.append ht)

/-- **Counting an ASCII byte counts the character.** -/
theorem count_utf8Chars {b : UInt8} (hascii : b.toNat < 0x80) (cs : List Char) :
    (utf8Chars cs).count b = cs.count (Char.ofNat b.toNat) := by
  induction cs with
  | nil => rfl
  | cons c cs ih =>
    rw [utf8Chars_cons, List.count_append, ih, List.count_cons]
    by_cases hc : c = Char.ofNat b.toNat
    · subst hc
      rw [encoded_ofNat hascii]
      simp [Nat.add_comm]
    · have hnot : b ∉ String.utf8EncodeChar c := fun hb => hc (encoded_eq_of_mem hascii hb).1
      simp [List.count_eq_zero_of_not_mem hnot, hc]

/-- An ASCII byte occurs in an encoded text exactly when its character does. -/
theorem mem_utf8Chars_iff {b : UInt8} (hascii : b.toNat < 0x80) {cs : List Char} :
    b ∈ utf8Chars cs ↔ Char.ofNat b.toNat ∈ cs := by
  rw [← List.count_pos_iff, ← List.count_pos_iff, count_utf8Chars hascii]

end DocHarvest.Utf8
