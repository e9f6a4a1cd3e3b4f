import DocHarvest.Catalog.Po
import DocHarvest.Decimal.Numeral
import DocHarvest.Proofs.Bytes.Ascii
import DocHarvest.Proofs.Bytes.Lines

/-!
# A Reader of the PO Format

The text of a catalog can be read without knowing how it was written. The reader here goes by
the format alone: empty lines stand between entries, a line of references holds places between
blanks, and a text is what its quoted strings spell together. Each of its parts undoes what the
writer does: a quoted string is read as the text inside, a number as the number, and a line of
references as its places.

One fact carries the texts: a text is written as one quoted string for each of its lines, with
the line feed escaped like any other special byte.

## Main definitions

* `Po.Entry` — one entry of a PO file; `Po.read?` reads all of them.

## Main results

* `Po.quoted?_spelled` — a quoted string is read as what was written.
* `Po.quotedLines_eq` — a text is written as one quoted string for each of its lines.
* `Po.occurrence?_item` — a place is read as what was written.
* `Po.references?_line` — a line of references is read as its places.
-/

namespace DocHarvest

namespace Po

/-! ### The reader -/

/-- The byte that a backslash and the given byte stand for. -/
def unescaped? (b : UInt8) : Option UInt8 :=
  if b = Byte.backslash then some Byte.backslash
  else if b = Byte.doubleQuote then some Byte.doubleQuote
  else if b = UInt8.ofNat 't'.toNat then some Byte.tab
  else if b = UInt8.ofNat 'n'.toNat then some Byte.lineFeed
  else none

/-- What stands before a closing quote, which has to be the last byte. -/
def closed? : Bytes → Option Bytes
  | [] => none
  | [b] => if b = Byte.doubleQuote then some [] else none
  | b :: c :: rest =>
    if b = Byte.doubleQuote then none
    else if b = Byte.backslash then
      (unescaped? c).bind fun plain => (closed? rest).map (plain :: ·)
    else (closed? (c :: rest)).map (b :: ·)

/-- What a quoted string spells, when a line is one. -/
def quoted? : Bytes → Option Bytes
  | [] => none
  | b :: rest => if b = Byte.doubleQuote then closed? rest else none

/-- What the quoted strings at the start of some lines spell together, and the other lines. -/
def strings : List Bytes → Bytes × List Bytes
  | [] => ([], [])
  | line :: rest =>
    match quoted? line with
    | some s => (s ++ (strings rest).1, (strings rest).2)
    | none => ([], line :: rest)

/-- The text of a field with the given name at the start of some lines, and the other lines. -/
def field? (name : Bytes) : List Bytes → Option (Bytes × List Bytes)
  | [] => none
  | line :: rest => do
    let first ← quoted? (← Bytes.dropStem? name line)
    return (first ++ (strings rest).1, (strings rest).2)

/-- An integer in decimal notation. -/
def integer? (s : Bytes) : Option Int :=
  let (negative, digits) := Numeral.splitSign (s.map fun b => Char.ofNat b.toNat)
  (Numeral.natural? 10 digits).map fun n => if negative then -(n : Int) else n

/-- The byte between a source and a line. -/
def colon : UInt8 := UInt8.ofNat ':'.toNat

/-- A place: a source, and a line after the last colon. -/
def occurrence? (item : Bytes) : Option Occurrence :=
  match item.reverse.dropWhile (· ≠ colon) with
  | [] => none
  | _ :: source =>
    (integer? (item.reverse.takeWhile (· ≠ colon)).reverse).map fun line =>
      ⟨source.reverse, line⟩

/-- The places in the lines of references at the start of some lines, and the other lines. -/
def references? : List Bytes → Option (List Occurrence × List Bytes)
  | [] => some ([], [])
  | line :: rest =>
    match Bytes.dropStem? (utf8 "#:") line with
    | none => some ([], line :: rest)
    | some items => do
      let places ← ((items.splitOn Byte.space).filter fun item => !item.isEmpty).mapM occurrence?
      let (others, rest) ← references? rest
      return (places ++ others, rest)

/-- One entry: the places that it refers to, and its two texts. -/
structure Entry where
  references : List Occurrence
  msgid : Bytes
  msgstr : Bytes
  deriving DecidableEq, Repr

/-- The entry that some lines hold, with nothing after it. -/
def entryOf? (lines : List Bytes) : Option Entry := do
  let (references, rest) ← references? lines
  let (msgid, rest) ← field? (utf8 "msgid ") rest
  let (msgstr, rest) ← field? (utf8 "msgstr ") rest
  if rest.isEmpty then some { references, msgid, msgstr } else none

/-- The entries of a PO file, with empty lines between them. -/
def read? (text : Bytes) : Option (List Entry) :=
  (((text.splitOn Byte.lineFeed).splitOn []).filter fun block => !block.isEmpty).mapM entryOf?

/-! ### Quoted strings -/

/-- A text inside a quoted string, with line feeds escaped too. -/
def spelled (s : Bytes) : Bytes :=
  s.flatMap fun b => if b = Byte.lineFeed then utf8 "\\n" else escapeByte b

/-- A text between quotes. -/
def inQuotes (inside : Bytes) : Bytes :=
  Byte.doubleQuote :: (inside ++ [Byte.doubleQuote])

/-- Texts are spelled one after another. -/
theorem spelled_append (s t : Bytes) : spelled (s ++ t) = spelled s ++ spelled t :=
  List.flatMap_append

/-- A backslash and the byte after it are read as the byte that they stand for. -/
theorem closed?_escaped {c plain : UInt8} (h : unescaped? c = some plain) (rest : Bytes) :
    closed? (Byte.backslash :: c :: rest) = (closed? rest).map (plain :: ·) := by
  have hquote : Byte.backslash ≠ Byte.doubleQuote := by decide
  rw [closed?, if_neg hquote, if_pos rfl, h]
  rfl

/-- A byte that is neither a quote nor a backslash is read as itself. -/
theorem closed?_plain {b : UInt8} (hquote : b ≠ Byte.doubleQuote)
    (hbackslash : b ≠ Byte.backslash) (rest : Bytes) :
    closed? (b :: rest) = (closed? rest).map (b :: ·) := by
  cases rest with
  | nil => simp [closed?, hquote]
  | cons c others => rw [closed?, if_neg hquote, if_neg hbackslash]

/-- What is written for a byte is read as that byte. -/
theorem closed?_spelled_singleton (b : UInt8) (rest : Bytes) :
    closed? (spelled [b] ++ rest) = (closed? rest).map (b :: ·) := by
  by_cases hfeed : b = Byte.lineFeed
  · subst hfeed
    exact closed?_escaped (by decide) rest
  have hone : spelled [b] = escapeByte b := by simp [spelled, hfeed]
  rw [hone, escapeByte]
  split
  · next h => subst h; exact closed?_escaped (by decide) rest
  · next hbackslash =>
    split
    · next h => subst h; exact closed?_escaped (by decide) rest
    · next hquote =>
      split
      · next h => subst h; exact closed?_escaped (by decide) rest
      · exact closed?_plain hquote hbackslash rest

/-- A text that was spelled out is read back, up to what follows it. -/
theorem closed?_spelled (s rest : Bytes) :
    closed? (spelled s ++ rest) = (closed? rest).map (s ++ ·) := by
  induction s with
  | nil => exact Option.map_id'.symm
  | cons b others ih =>
    rw [← List.singleton_append, spelled_append, List.append_assoc,
      closed?_spelled_singleton, ih, Option.map_map]
    rfl

/-- **A quoted string is read as what was written.** -/
theorem quoted?_spelled (s : Bytes) : quoted? (inQuotes (spelled s)) = some s := by
  rw [inQuotes, quoted?, if_pos rfl, closed?_spelled]
  exact congrArg some (List.append_nil s)

/-- A spelled text in quotes is read back, with a plain text before it. -/
theorem quoted?_plain {s : Bytes} (hquote : Byte.doubleQuote ∉ s)
    (hbackslash : Byte.backslash ∉ s) (t : Bytes) :
    quoted? (inQuotes (s ++ spelled t)) = some (s ++ t) := by
  have hclosed : ∀ rest, closed? (s ++ rest) = (closed? rest).map (s ++ ·) := by
    intro rest
    induction s with
    | nil => exact Option.map_id'.symm
    | cons b others ih =>
      simp only [List.mem_cons, not_or] at hquote hbackslash
      rw [List.cons_append, closed?_plain (Ne.symm hquote.1) (Ne.symm hbackslash.1),
        ih hquote.2 hbackslash.2, Option.map_map]
      rfl
  rw [inQuotes, quoted?, if_pos rfl, List.append_assoc, hclosed, closed?_spelled]
  exact congrArg (fun u => some (s ++ u)) (List.append_nil t)

/-- A line feed is never spelled as itself. -/
theorem lineFeed_not_mem_spelled (s : Bytes) : Byte.lineFeed ∉ spelled s := by
  simp only [spelled, List.mem_flatMap, not_exists, not_and]
  intro b _
  split
  · decide
  · next hfeed =>
    rw [escapeByte]
    split
    · decide
    split
    · decide
    split
    · decide
    · simpa using Ne.symm hfeed

end Po

/-! ### Texts as quoted strings -/

namespace Bytes

/-- Splitting a text is the library's splitting of a list. -/
theorem splitAt_eq_splitOn (sep : UInt8) (s : Bytes) : splitAt sep s = s.splitOn sep := by
  induction s with
  | nil => rfl
  | cons b rest ih =>
    rw [List.splitOn_cons_eq_if_modifyHead, splitAt, ih]
    by_cases h : b = sep
    · simp [h]
    · cases hsplit : rest.splitOn sep with
      | nil => exact absurd hsplit (List.splitOn_ne_nil sep rest)
      | cons piece others => simp [h]

end Bytes

namespace Po

/-- Lines, each ended by a line feed. -/
def unlines (lines : List Bytes) : Bytes :=
  lines.flatMap (· ++ [Byte.lineFeed])

/-- The first line comes first, with its end. -/
@[simp] theorem unlines_cons (line : Bytes) (others : List Bytes) :
    unlines (line :: others) = line ++ [Byte.lineFeed] ++ unlines others := rfl

/-- Lines are written one after another. -/
theorem unlines_append (ls ls' : List Bytes) : unlines (ls ++ ls') = unlines ls ++ unlines ls' :=
  List.flatMap_append

/-- The parts of a text that are written as one quoted string each. -/
def parts (s : Bytes) : List Bytes :=
  if s.isEmpty then [[]] else Bytes.lines s

/-- The parts of a text make up the text. -/
theorem flatten_parts (s : Bytes) : (parts s).flatten = s := by
  unfold parts
  split
  · next hempty => simpa using (List.isEmpty_iff.mp hempty).symm
  · exact Bytes.flatten_lines s

/-- Every text has a part. -/
theorem parts_ne_nil (s : Bytes) : parts s ≠ [] := by
  unfold parts
  split
  · simp
  · next hne =>
    intro hnil
    have hflat := Bytes.flatten_lines s
    rw [hnil] at hflat
    exact hne (List.isEmpty_iff.mpr hflat.symm)

/-- A quoted line is one line. -/
theorem quotedLine_eq (inside : Bytes) : quotedLine inside = unlines [inQuotes inside] := by
  have hopen : utf8 "\"" = [Byte.doubleQuote] := by decide
  have hclose : utf8 "\"\n" = [Byte.doubleQuote] ++ [Byte.lineFeed] := by decide
  simp only [quotedLine, hopen, hclose, unlines, inQuotes, List.flatMap_singleton,
    List.append_assoc, List.cons_append, List.nil_append]

/-- Within a line, escaping a text is spelling it. -/
theorem escape_eq_spelled {s : Bytes} (h : Byte.lineFeed ∉ s) : escape s = spelled s := by
  have hsame : ∀ b ∈ s, escapeByte b =
      if b = Byte.lineFeed then utf8 "\\n" else escapeByte b := by
    intro b hmem
    rw [if_neg (ne_of_mem_of_not_mem hmem h)]
  rw [escape, spelled, List.flatMap_def, List.flatMap_def, List.map_congr_left hsame]

/-- Every piece but the last is written with the line feed that ends it. -/
theorem quotedPieces_cons {piece : Bytes} {others : List Bytes} (h : others ≠ []) :
    quotedPieces (piece :: others) =
      quotedLine (escape piece ++ utf8 "\\n") ++ quotedPieces others := by
  obtain ⟨next, rest, rfl⟩ := List.exists_cons_of_ne_nil h
  rfl

/-- The pieces of a text are written as its lines, each of them spelled out in quotes. -/
theorem quotedPieces_splitOn (s : Bytes) : quotedPieces (s.splitOn Byte.lineFeed) =
    unlines ((Bytes.lines s).map fun line => inQuotes (spelled line)) := by
  induction hlength : s.length using Nat.strongRecOn generalizing s with
  | ind n ih =>
  by_cases hfeed : Byte.lineFeed ∈ s
  · obtain ⟨first, rest, rfl, hfirst⟩ := List.eq_append_cons_of_mem hfeed
    have hshorter : rest.length < n := by
      rw [← hlength, List.length_append, List.length_cons]
      omega
    have hline : escape first ++ utf8 "\\n" = spelled (first ++ [Byte.lineFeed]) := by
      rw [escape_eq_spelled hfirst, spelled_append]
      rfl
    rw [List.splitOn_append_cons_self_of_not_mem hfirst, Bytes.lines_append hfirst,
      quotedPieces_cons (List.splitOn_ne_nil _ rest), hline, quotedLine_eq,
      ih _ hshorter rest rfl, ← unlines_append]
    rfl
  · rw [List.splitOn_eq_singleton hfeed, quotedPieces]
    cases s with
    | nil => rfl
    | cons b others =>
      rw [Bytes.lines_of_not_mem hfeed (List.cons_ne_nil b others), escape_eq_spelled hfeed,
        quotedLine_eq]
      rfl

/-- **A text is written as one quoted string for each of its lines**, with the line feed inside;
an empty text is written as one that is empty. -/
theorem quotedLines_eq (s : Bytes) :
    quotedLines s = unlines ((parts s).map fun part => inQuotes (spelled part)) := by
  rw [quotedLines, parts]
  split
  · exact quotedLine_eq []
  · rw [Bytes.splitAt_eq_splitOn]
    exact quotedPieces_splitOn s

/-! ### Numbers -/

/-- The code points of the digits. -/
theorem toNat_of_isDigit {c : Char} (h : c.isDigit = true) : 48 ≤ c.toNat ∧ c.toNat ≤ 57 := by
  simp only [Char.isDigit, Bool.and_eq_true, decide_eq_true_eq, ge_iff_le,
    UInt32.le_iff_toNat_le] at h
  exact h

/-- Digits are read as their number. -/
theorem natural?_digits {cs : List Char} (hne : cs ≠ []) (h : ∀ c ∈ cs, c.isDigit = true) :
    Numeral.natural? 10 cs = some (Nat.ofDigitChars 10 cs 0) := by
  have hfold : ∀ n, (cs.foldlM (fun n c => do
      let d ← Numeral.digitValue? c
      if d < 10 then some (n * 10 + d) else none) n : Option Nat) =
        some (Nat.ofDigitChars 10 cs n) := by
    clear hne
    induction cs with
    | nil => exact fun n => rfl
    | cons c others ih =>
      intro n
      obtain ⟨hc, hothers⟩ := List.forall_mem_cons.mp h
      have hsmall : c.toNat - 48 < 10 := by
        have := toNat_of_isDigit hc
        omega
      rw [List.foldlM_cons, Nat.ofDigitChars_cons, ← ih hothers]
      simp [Numeral.digitValue?, hc, hsmall, Nat.mul_comm]
  rw [Numeral.natural?, if_neg (by simpa using hne)]
  exact hfold 0

/-- ASCII characters are encoded as one byte each. -/
theorem utf8Chars_ascii {cs : List Char} (h : ∀ c ∈ cs, c.toNat < 128) :
    utf8Chars cs = cs.map fun c => UInt8.ofNat c.toNat := by
  induction cs with
  | nil => rfl
  | cons c others ih =>
    obtain ⟨hc, hothers⟩ := List.forall_mem_cons.mp h
    rw [utf8Chars_cons, Utf8.encoded_ascii hc, ih hothers]
    rfl

/-- ASCII characters are read from their bytes one by one. -/
theorem chars_utf8Chars {cs : List Char} (h : ∀ c ∈ cs, c.toNat < 128) :
    (utf8Chars cs).map (fun b => Char.ofNat b.toNat) = cs := by
  rw [utf8Chars_ascii h, List.map_map]
  refine (List.map_congr_left fun c hmem => ?_).trans (List.map_id cs)
  have hc := h c hmem
  simp [Nat.mod_eq_of_lt (show c.toNat < 256 by omega)]

/-- Digits are ASCII characters. -/
theorem toDigits_ascii {n : Nat} : ∀ c ∈ Nat.toDigits 10 n, c.toNat < 128 := fun c hmem => by
  have := toNat_of_isDigit (Nat.isDigit_of_mem_toDigits (by decide) (by decide) hmem)
  omega

/-- A number is read back from its digits. -/
theorem natural?_toDigits (n : Nat) : Numeral.natural? 10 (Nat.toDigits 10 n) = some n := by
  rw [natural?_digits Nat.toDigits_ne_nil fun c hmem =>
    Nat.isDigit_of_mem_toDigits (by decide) (by decide) hmem, Nat.ofDigitChars_ten_toDigits]

/-- The digits of a number have no sign before them. -/
theorem splitSign_toDigits (n : Nat) :
    Numeral.splitSign (Nat.toDigits 10 n) = (false, Nat.toDigits 10 n) := by
  have hdigit : ∀ c ∈ Nat.toDigits 10 n, c.isDigit = true := fun c hmem =>
    Nat.isDigit_of_mem_toDigits (by decide) (by decide) hmem
  unfold Numeral.splitSign
  split
  · next h => simp [h] at hdigit
  · next h => simp [h] at hdigit
  · rfl

/-- A number is read as what was written. -/
theorem integer?_decimal (n : Int) : integer? (decimal n) = some n := by
  cases n with
  | ofNat n =>
    simp only [integer?, decimal, decimalNat, chars_utf8Chars toDigits_ascii,
      splitSign_toDigits, natural?_toDigits]
    rfl
  | negSucc n =>
    have hminus : (utf8 "-").map (fun b => Char.ofNat b.toNat) = ['-'] := by decide
    simp only [integer?, decimal, decimalNat, List.map_append, hminus,
      chars_utf8Chars toDigits_ascii, List.singleton_append, Numeral.splitSign,
      natural?_toDigits]
    rfl

/-- A number is written in digits, with a minus sign or without. -/
theorem mem_decimal {n : Int} {b : UInt8} (h : b ∈ decimal n) : 45 ≤ b.toNat ∧ b.toNat ≤ 57 := by
  have hdigits : ∀ m, b ∈ decimalNat m → 45 ≤ b.toNat ∧ b.toNat ≤ 57 := by
    intro m hmem
    rw [decimalNat, utf8Chars_ascii toDigits_ascii] at hmem
    obtain ⟨c, hc, rfl⟩ := List.mem_map.mp hmem
    have := toNat_of_isDigit (Nat.isDigit_of_mem_toDigits (by decide) (by decide) hc)
    rw [UInt8.toNat_ofNat', Nat.mod_eq_of_lt (by omega)]
    omega
  cases n with
  | ofNat m => exact hdigits m h
  | negSucc m =>
    rcases List.mem_append.mp h with hminus | hmem
    · obtain rfl : b = 45 := List.mem_singleton.mp hminus
      decide
    · exact hdigits _ hmem

/-! ### Places -/

/-- A place as it stands between blanks. -/
def item (o : Occurrence) : Bytes :=
  o.source ++ colon :: decimal o.line

/-- **A place is read as what was written.** -/
theorem occurrence?_item (o : Occurrence) : occurrence? (item o) = some o := by
  have hline : ∀ b ∈ (decimal o.line).reverse, decide (b ≠ colon) = true := by
    intro b hmem
    have hb := mem_decimal (List.mem_reverse.mp hmem)
    refine decide_eq_true fun heq => ?_
    rw [heq] at hb
    exact absurd hb (by decide)
  have hreverse : (item o).reverse = (decimal o.line).reverse ++ colon :: o.source.reverse := by
    simp [item]
  have hafter : (item o).reverse.takeWhile (· ≠ colon) = (decimal o.line).reverse := by
    rw [hreverse, List.takeWhile_append_of_pos hline]
    simp
  have hbefore : (item o).reverse.dropWhile (· ≠ colon) = colon :: o.source.reverse := by
    rw [hreverse, List.dropWhile_append_of_pos hline]
    simp
  simp only [occurrence?, hafter, hbefore, List.reverse_reverse, integer?_decimal]
  rfl

/-- Items that are each read as something are read as all of that, in order. -/
theorem mapM_of_forall {α β γ : Type} {f : α → β} {g : α → γ} {read : β → Option γ}
    {as : List α} (h : ∀ a ∈ as, read (f a) = some (g a)) :
    (as.map f).mapM read = some (as.map g) := by
  induction as with
  | nil => rfl
  | cons a others ih =>
    obtain ⟨ha, hothers⟩ := List.forall_mem_cons.mp h
    simp [List.mapM_cons, ha, ih hothers]

/-- Pieces with separators between them are split at the separators. -/
theorem splitOn_append_flatMap {α : Type} [BEq α] [LawfulBEq α] {sep : α} {first : List α}
    {others : List (List α)} (hfirst : sep ∉ first) (h : ∀ piece ∈ others, sep ∉ piece) :
    (first ++ others.flatMap (sep :: ·)).splitOn sep = first :: others := by
  induction others generalizing first with
  | nil =>
    rw [List.flatMap_nil, List.append_nil]
    exact List.splitOn_eq_singleton hfirst
  | cons next rest ih =>
    obtain ⟨hnext, hrest⟩ := List.forall_mem_cons.mp h
    rw [List.flatMap_cons, List.cons_append, List.splitOn_append_cons_self_of_not_mem hfirst,
      ih hnext hrest]

/-- A stem is dropped from what starts with it. -/
theorem dropStem?_append (stem s : Bytes) : Bytes.dropStem? stem (stem ++ s) = some s := by
  simp [Bytes.dropStem?]

/-- A line of references is read as the places that it was written from. -/
theorem references?_line {places : List Occurrence} (h : ∀ o ∈ places, Byte.space ∉ o.source)
    (rest : List Bytes) :
    references? ((utf8 "#:" ++ places.flatMap fun o => Byte.space :: item o) :: rest) =
      (references? rest).map fun (others, rest) => (places ++ others, rest) := by
  have hblank : ∀ piece ∈ places.map item, Byte.space ∉ piece := by
    intro piece hmem
    obtain ⟨o, ho, rfl⟩ := List.mem_map.mp hmem
    simp only [item, List.mem_append, List.mem_cons, not_or]
    refine ⟨h o ho, by decide, fun hline => ?_⟩
    exact absurd (mem_decimal hline).1 (by decide)
  have hitems : (places.flatMap fun o => Byte.space :: item o).splitOn Byte.space =
      [] :: places.map item := by
    have := splitOn_append_flatMap (List.not_mem_nil (a := Byte.space)) hblank
    rwa [List.nil_append, List.flatMap_map] at this
  have hkept : (([] :: places.map item).filter fun piece => !piece.isEmpty) =
      places.map item := by
    simp [item]
  have hread : (places.map item).mapM occurrence? = some places := by
    rw [mapM_of_forall fun o _ => occurrence?_item o, List.map_id']
  simp only [references?, dropStem?_append, hitems, hkept, hread]
  cases references? rest <;> rfl

end Po

end DocHarvest
