import DocHarvest.Bytes.Utf8

/-!
# What UTF-8 Is

A run of bytes is UTF-8 when it is the encoding of some characters. The reader of UTF-8 decides
exactly that: what it takes apart can be put together again, and each encoded character is read
as itself, whatever follows it.

## Main definitions

* `Utf8.IsText` — a run of bytes encodes characters.

## Main results

* `Utf8.flatMap_bytes_pieces` — the pieces of a run of bytes make up the run.
* `Utf8.pieces_encoded` — an encoded character is read as that character.
* `Utf8.isValid_iff` — the reader accepts exactly the encodings of characters.
* `Utf8.pieces_utf8Chars` — encoded characters are read as themselves.
-/

namespace DocHarvest.Utf8

/-- A run of bytes is UTF-8 when it encodes characters. -/
def IsText (s : Bytes) : Prop :=
  ∃ cs : List Char, utf8Chars cs = s

/-! ### Reading is faithful -/

/-- A code point that was accepted for its bytes is encoded as these. -/
theorem encoded_of_charOf? {codePoint : Nat} {encoding : Bytes} {c : Char}
    (h : charOf? codePoint encoding = some c) : String.utf8EncodeChar c = encoding := by
  simp only [charOf?, Option.ite_none_right_eq_some, Option.some.injEq] at h
  exact h.2 ▸ h.1

/-- What one byte was read as is encoded as that byte. -/
theorem encoded_of_one? {a : UInt8} {c : Char} (h : one? a = some c) :
    String.utf8EncodeChar c = [a] := by
  have hascii : ∀ n < 128, String.utf8EncodeChar (Char.ofNat n) = [UInt8.ofNat n] := by decide
  unfold one? at h
  split at h
  · next hsmall =>
    rw [← Option.some.inj h, hascii a.toNat (UInt8.lt_iff_toNat_lt.mp hsmall), UInt8.ofNat_toNat]
  · cases h

/-- What two bytes were read as is encoded as these. -/
theorem encoded_of_two? {a b : UInt8} {c : Char} (h : two? a b = some c) :
    String.utf8EncodeChar c = [a, b] := by
  unfold two? at h
  split at h
  · exact encoded_of_charOf? h
  · cases h

/-- What three bytes were read as is encoded as these. -/
theorem encoded_of_three? {a b b' : UInt8} {c : Char} (h : three? a b b' = some c) :
    String.utf8EncodeChar c = [a, b, b'] := by
  unfold three? at h
  split at h
  · exact encoded_of_charOf? h
  · cases h

/-- What four bytes were read as is encoded as these. -/
theorem encoded_of_four? {a b b' b'' : UInt8} {c : Char} (h : four? a b b' b'' = some c) :
    String.utf8EncodeChar c = [a, b, b', b''] := by
  unfold four? at h
  split at h
  · exact encoded_of_charOf? h
  · cases h

/-- **The pieces of a run of bytes make up the run.** -/
theorem flatMap_bytes_pieces (s : Bytes) : (pieces s).flatMap Piece.bytes = s := by
  fun_induction pieces s with
  | case1 => rfl
  | case2 a rest c hone ih => simp [Piece.bytes, encoded_of_one? hone, ih]
  | case3 a hone => rfl
  | case4 a hone b rest c htwo ih => simp [Piece.bytes, encoded_of_two? htwo, ih]
  | case6 a hone b htwo b' rest c hthree ih =>
    simp [Piece.bytes, encoded_of_three? hthree, ih]
  | case8 a hone b htwo b' hthree b'' rest c hfour ih =>
    simp [Piece.bytes, encoded_of_four? hfour, ih]
  | case5 | case7 | case9 => simp_all [Piece.bytes]

/-! ### Encoded characters are read -/

/-- The leading byte of an encoding says how long it is, and the low bits of all its bytes are
those of the code point. -/
theorem encoded_cases (c : Char) :
    (∃ a, String.utf8EncodeChar c = [a] ∧ a.toNat < 0x80 ∧ a.toNat = c.toNat) ∨
    (∃ a b, String.utf8EncodeChar c = [a, b] ∧ 0xC0 ≤ a.toNat ∧ a.toNat < 0xE0 ∧
      a.toNat % 32 * 64 + b.toNat % 64 = c.toNat) ∨
    (∃ a b b', String.utf8EncodeChar c = [a, b, b'] ∧ 0xE0 ≤ a.toNat ∧ a.toNat < 0xF0 ∧
      (a.toNat % 16 * 64 + b.toNat % 64) * 64 + b'.toNat % 64 = c.toNat) ∨
    (∃ a b b' b'', String.utf8EncodeChar c = [a, b, b', b''] ∧ 0xF0 ≤ a.toNat ∧ a.toNat < 0xF8 ∧
      ((a.toNat % 8 * 64 + b.toNat % 64) * 64 + b'.toNat % 64) * 64 + b''.toNat % 64 =
        c.toNat) := by
  have hvalid : c.toNat < 0x110000 := by
    have := c.valid
    simp only [UInt32.isValidChar, Nat.isValidChar] at this
    simp only [Char.toNat]
    omega
  have hbyte : ∀ {n : Nat}, n < 256 → (UInt8.ofNat n).toNat = n := UInt8.toNat_ofNat_of_lt'
  rw [Char.toNat] at *
  fun_cases String.utf8EncodeChar c with
  | case1 v hone =>
    refine .inl ⟨_, rfl, ?_⟩
    rw [hbyte (by omega)]
    omega
  | case2 v hone htwo =>
    refine .inr (.inl ⟨_, _, rfl, ?_⟩)
    rw [hbyte (by omega), hbyte (by omega)]
    omega
  | case3 v hone htwo hthree =>
    refine .inr (.inr (.inl ⟨_, _, _, rfl, ?_⟩))
    rw [hbyte (by omega), hbyte (by omega), hbyte (by omega)]
    omega
  | case4 v hone htwo hthree =>
    refine .inr (.inr (.inr ⟨_, _, _, _, rfl, ?_⟩))
    rw [hbyte (by omega), hbyte (by omega), hbyte (by omega), hbyte (by omega)]
    omega

/-- The code point of a character is accepted for its encoding. -/
theorem charOf?_encoded {codePoint : Nat} {encoding : Bytes} {c : Char}
    (hcode : codePoint = c.toNat) (hencoded : String.utf8EncodeChar c = encoding) :
    charOf? codePoint encoding = some c := by
  simp [charOf?, hcode, hencoded]

/-- A byte beyond ASCII is no character by itself. -/
theorem one?_eq_none {a : UInt8} (h : 0x80 ≤ a.toNat) : one? a = none := by
  have hlarge : ¬ a < 0x80 := fun hlt => Nat.not_lt.mpr h (UInt8.lt_iff_toNat_lt.mp hlt)
  simp [one?, hlarge]

/-- A byte that leads three bytes or more does not lead two. -/
theorem two?_eq_none {a b : UInt8} (h : 0xE0 ≤ a.toNat) : two? a b = none := by
  have hlarge : ¬ a < 0xE0 := fun hlt => Nat.not_lt.mpr h (UInt8.lt_iff_toNat_lt.mp hlt)
  simp [two?, hlarge]

/-- A byte that leads four bytes does not lead three. -/
theorem three?_eq_none {a b b' : UInt8} (h : 0xF0 ≤ a.toNat) : three? a b b' = none := by
  have hlarge : ¬ a < 0xF0 := fun hlt => Nat.not_lt.mpr h (UInt8.lt_iff_toNat_lt.mp hlt)
  simp [three?, hlarge]

/-- **An encoded character is read as that character**, whatever follows it. -/
theorem pieces_encoded (c : Char) (rest : Bytes) :
    pieces (String.utf8EncodeChar c ++ rest) = .char c :: pieces rest := by
  rcases encoded_cases c with ⟨a, henc, hlead, hcode⟩ | ⟨a, b, henc, hlow, hhigh, hcode⟩ |
    ⟨a, b, b', henc, hlow, hhigh, hcode⟩ | ⟨a, b, b', b'', henc, hlow, hhigh, hcode⟩
  · have hone : one? a = some c := by
      rw [hcode] at hlead
      simp [one?, UInt8.lt_iff_toNat_lt, hcode, hlead]
    simp [henc, pieces.eq_def (a :: rest), hone]
  · have hone : one? a = none := one?_eq_none (by omega)
    have htwo : two? a b = some c := by
      simp [two?, UInt8.lt_iff_toNat_lt, UInt8.le_iff_toNat_le, hlow, hhigh,
        charOf?_encoded hcode henc]
    simp [henc, pieces.eq_def (a :: _), hone, htwo]
  · have hone : one? a = none := one?_eq_none (by omega)
    have htwo : two? a b = none := two?_eq_none (by omega)
    have hthree : three? a b b' = some c := by
      simp [three?, UInt8.lt_iff_toNat_lt, UInt8.le_iff_toNat_le, hlow, hhigh,
        charOf?_encoded hcode henc]
    simp [henc, pieces.eq_def (a :: _), hone, htwo, hthree]
  · have hone : one? a = none := one?_eq_none (by omega)
    have htwo : two? a b = none := two?_eq_none (by omega)
    have hthree : three? a b b' = none := three?_eq_none (by omega)
    have hfour : four? a b b' b'' = some c := by
      simp [four?, UInt8.lt_iff_toNat_lt, UInt8.le_iff_toNat_le, hlow, hhigh,
        charOf?_encoded hcode henc]
    simp [henc, pieces.eq_def (a :: _), hone, htwo, hthree, hfour]

/-! ### The reader decides -/

/-- **The reader accepts exactly the encodings of characters.** -/
theorem isValid_iff {s : Bytes} : isValid s = true ↔ IsText s := by
  unfold isValid
  constructor
  · intro hvalid
    have hchars : ∀ ps : List Piece, (ps.all fun piece => piece.char?.isSome) = true →
        ∃ cs, utf8Chars cs = ps.flatMap Piece.bytes := by
      intro ps hall
      induction ps with
      | nil => exact ⟨[], rfl⟩
      | cons p others ih =>
        simp only [List.all_cons, Bool.and_eq_true] at hall
        obtain ⟨cs, hcs⟩ := ih hall.2
        cases p with
        | char c => exact ⟨c :: cs, by simp [Piece.bytes, hcs]⟩
        | stray b => cases hall.1
    have hencoded := hchars (pieces s) hvalid
    rwa [flatMap_bytes_pieces] at hencoded
  · rintro ⟨cs, rfl⟩
    induction cs with
    | nil => rfl
    | cons c others ih => simpa [pieces_encoded, Piece.char?] using ih

instance (s : Bytes) : Decidable (IsText s) :=
  decidable_of_iff _ isValid_iff

/-! ### The characters of a text -/

/-- **Encoded characters are read as themselves.** -/
theorem pieces_utf8Chars (cs : List Char) : pieces (utf8Chars cs) = cs.map Piece.char := by
  induction cs with
  | nil => rfl
  | cons c cs ih => rw [utf8Chars_cons, pieces_encoded, ih, List.map_cons]

/-- **An encoded text is read as its characters.** -/
theorem chars?_utf8Chars (cs : List Char) : chars? (utf8Chars cs) = some cs := by
  rw [chars?, pieces_utf8Chars]
  induction cs with
  | nil => rfl
  | cons c cs ih => simp [Piece.char?, ih]

/-- An encoded text is read as its characters also where faults are replaced. -/
theorem charsLossy_utf8Chars (cs : List Char) : charsLossy (utf8Chars cs) = cs := by
  rw [charsLossy, pieces_utf8Chars, List.map_map]
  exact List.map_id cs

/-- Different characters have different encodings. -/
theorem utf8Chars_injective : Function.Injective utf8Chars := by
  intro cs ds h
  have hread := congrArg chars? h
  rwa [chars?_utf8Chars, chars?_utf8Chars, Option.some.injEq] at hread

end DocHarvest.Utf8
