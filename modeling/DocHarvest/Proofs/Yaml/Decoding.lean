import DocHarvest.Proofs.Bytes.Encoding
import DocHarvest.Yaml.Supply

/-!
# Decoding Written Text

A file that holds UTF-8, starts with no mark and has only characters that may stand in a document is
decoded as those characters. The blocks in which that happens leave no trace: each ends between two
characters, and the next one goes on there.

## Main results

* `Yaml.leadUtf8_encoded` — an encoded character is decoded, unless the block ends before it does.
* `Yaml.decodeBlock_utf8Chars` — a block holds the characters up to some place.
* `Yaml.supply_utf8Chars` — the supply of a file.
-/

namespace DocHarvest.Yaml

/-- The first byte of a character tells how many there are. -/
theorem encodedLength_encoded {c : Char} {a : UInt8} {tail : Bytes}
    (h : String.utf8EncodeChar c = a :: tail) : encodedLength a = (a :: tail).length := by
  have hcompare : ∀ n : UInt8, a < n ↔ a.toNat < n.toNat := fun n => UInt8.lt_iff_toNat_lt
  rw [← h]
  simp only [encodedLength, hcompare, UInt8.reduceToNat]
  obtain ⟨b, henc, hlead, -⟩ | ⟨b, _, henc, hlow, hhigh, -⟩ | ⟨b, _, _, henc, hlow, hhigh, -⟩ |
    ⟨b, _, _, _, henc, hlow, hhigh, -⟩ := Utf8.encoded_cases c
  all_goals obtain rfl : a = b := (List.cons.inj (h.symm.trans henc)).1
  all_goals rw [henc]
  · rw [if_pos hlead]
    rfl
  · rw [if_neg (by omega), if_neg (by omega), if_pos hhigh]
    rfl
  · rw [if_neg (by omega), if_neg (by omega), if_neg (by omega), if_pos hhigh]
    rfl
  · rw [if_neg (by omega), if_neg (by omega), if_neg (by omega), if_neg (by omega), if_pos hhigh]
    rfl

/-- **An encoded character** at the start of the bytes ahead. -/
theorem leadUtf8_encoded {c : Char} (hc : isAllowed c = true) (size : Nat) (rest : Bytes) :
    leadUtf8 size (String.utf8EncodeChar c ++ rest) =
      if size < (String.utf8EncodeChar c).length then .cut
      else .char c (String.utf8EncodeChar c).length := by
  have hchars : Utf8.chars? (String.utf8EncodeChar c) = some [c] := by
    simpa using Utf8.chars?_utf8Chars [c]
  cases henc : String.utf8EncodeChar c with
  | nil =>
    have hlength := String.length_utf8EncodeChar c
    rw [henc, List.length_nil] at hlength
    exact absurd hlength.symm (Nat.ne_of_gt c.utf8Size_pos)
  | cons a tail =>
    have hwidth := encodedLength_encoded henc
    have hgroup : (a :: (tail ++ rest)).take (a :: tail).length = a :: tail :=
      List.take_left' rfl
    rw [henc] at hchars
    simp only [List.cons_append, leadUtf8, hwidth, hgroup, hchars, Lead.ofChar, hc, if_true]
    simp

/-- **A block** of a text holds the characters up to some place; a block that has room for a character
holds at least one. -/
theorem decodeBlock_utf8Chars {cs : List Char} (hcs : ∀ c ∈ cs, isAllowed c = true)
    (fuel size : Nat) (chars : List Char) :
    ∃ pre post, cs = pre ++ post ∧
      decodeBlock .utf8 fuel size chars (utf8Chars cs) =
        some (chars.reverse ++ pre, utf8Chars post) ∧
      (0 < fuel → 4 ≤ size → cs ≠ [] → pre ≠ []) := by
  induction fuel generalizing cs size chars with
  | zero => exact ⟨[], cs, rfl, by simp [decodeBlock], by simp⟩
  | succ fuel ih =>
    cases cs with
    | nil => exact ⟨[], [], rfl, by simp [decodeBlock, Encoding.lead, leadUtf8], by simp⟩
    | cons c cs =>
      obtain ⟨hc, hcs⟩ := List.forall_mem_cons.mp hcs
      have hlead : Encoding.utf8.lead size (utf8Chars (c :: cs)) = _ :=
        leadUtf8_encoded hc size (utf8Chars cs)
      by_cases hfits : size < (String.utf8EncodeChar c).length
      · rw [if_pos hfits] at hlead
        refine ⟨[], c :: cs, rfl, by rw [decodeBlock, hlead, List.append_nil], ?_⟩
        intro _ hsize
        rw [String.length_utf8EncodeChar] at hfits
        have := c.utf8Size_le_four
        omega
      · rw [if_neg hfits] at hlead
        obtain ⟨pre, post, hsplit, hdecode, -⟩ :=
          ih hcs (size - (String.utf8EncodeChar c).length) (c :: chars)
        refine ⟨c :: pre, post, by rw [hsplit, List.cons_append], ?_, by simp⟩
        have hdrop : (utf8Chars (c :: cs)).drop (String.utf8EncodeChar c).length = utf8Chars cs :=
          List.drop_left' rfl
        rw [decodeBlock, hlead]
        simp only [hdrop, hdecode]
        simp

/-- A text that is not empty has bytes. -/
theorem length_utf8Chars_pos {cs : List Char} (h : cs ≠ []) : 0 < (utf8Chars cs).length := by
  obtain ⟨c, cs, rfl⟩ := List.exists_cons_of_ne_nil h
  rw [utf8Chars_cons, List.length_append, String.length_utf8EncodeChar]
  have := c.utf8Size_pos
  omega

/-- **The blocks of a text** hold its characters, and reach its end. -/
theorem decodeBlocks_utf8Chars {cs : List Char} (hcs : ∀ c ∈ cs, isAllowed c = true) {fuel : Nat}
    (hfuel : (utf8Chars cs).length ≤ fuel) (size : Nat) (hsize : 4 ≤ size) :
    ∃ blocks, decodeBlocks .utf8 fuel size (utf8Chars cs) = (blocks, true) ∧
      blocks.flatten = cs := by
  induction fuel generalizing cs size with
  | zero =>
    have hnil : cs = [] := Decidable.byContradiction fun hne =>
      Nat.not_lt.mpr hfuel (length_utf8Chars_pos hne)
    rw [hnil]
    exact ⟨[], rfl, rfl⟩
  | succ fuel ih =>
    by_cases hne : cs = []
    · rw [hne]
      exact ⟨[], rfl, rfl⟩
    · obtain ⟨pre, post, rfl, hblock, hpre⟩ := decodeBlock_utf8Chars hcs size size []
      have hpre := hpre (by omega) hsize hne
      have hshorter : (utf8Chars post).length ≤ fuel := by
        have := length_utf8Chars_pos hpre
        rw [utf8Chars_append, List.length_append] at hfuel
        omega
      obtain ⟨blocks, hblocks, hflatten⟩ :=
        ih (fun c hc => hcs c (List.mem_append_right _ hc)) hshorter blockSize (by decide)
      have hfull : (utf8Chars (pre ++ post)).isEmpty = false :=
        List.isEmpty_eq_false_iff.mpr (List.ne_nil_of_length_pos (length_utf8Chars_pos hne))
      obtain ⟨c, pre, rfl⟩ := List.exists_cons_of_ne_nil hpre
      refine ⟨(c :: pre) :: blocks, ?_, by rw [List.flatten_cons, hflatten]⟩
      rw [decodeBlocks, hfull, hblock]
      simp [hblocks]

/-- **The supply of a file** that holds UTF-8 and starts with a character of ASCII: all its
characters. -/
theorem supply_utf8Chars {c : Char} {cs : List Char} (hc : c.toNat < 128)
    (hcs : ∀ d ∈ c :: cs, isAllowed d = true) :
    (supply (utf8Chars (c :: cs))).chars = c :: cs ∧
      (supply (utf8Chars (c :: cs))).sound = true := by
  have henc : String.utf8EncodeChar c = [UInt8.ofNat c.toNat] := by
    simp [String.utf8EncodeChar, show c.toNat ≤ 127 by omega]
  have hunmarked : supply (utf8Chars (c :: cs)) =
      Encoding.utf8.supply 0 (utf8Chars (c :: cs)) := by
    have hsmall : (UInt8.ofNat c.toNat).toNat < 128 := by
      rw [UInt8.toNat_ofNat_of_lt' (Nat.lt_trans hc (by decide))]
      exact hc
    rw [utf8Chars_cons, henc, List.singleton_append]
    generalize UInt8.ofNat c.toNat = b at hsmall
    unfold supply
    split
    · next h => exact absurd (List.cons.inj h).1 (by rintro rfl; simp at hsmall)
    · next h => exact absurd (List.cons.inj h).1 (by rintro rfl; simp at hsmall)
    · next h => exact absurd (List.cons.inj h).1 (by rintro rfl; simp at hsmall)
    · rfl
  obtain ⟨blocks, hblocks, hflatten⟩ :=
    decodeBlocks_utf8Chars hcs (Nat.le_refl _) (blockSize - 0) (by decide)
  rw [hunmarked, Encoding.supply, hblocks]
  exact ⟨hflatten, rfl⟩

end DocHarvest.Yaml
