import DocHarvest.Proofs.Relay.CachePattern

/-!
# Relayed Output is UTF-8

Whatever a formatter prints, what is relayed of it is UTF-8: each line is made a text of its own
before anything else is done with it, a name that is cut out of a text is a text, and so are texts
one after another.

A verbose relay changes nothing but lines that are not UTF-8. No such line is merged with another or
torn apart, because reading bytes as Latin-1 neither makes nor loses a line feed. So the output has
the lines of the input, each decoded; and relaying the output once more leaves it as it is.

## Main definitions

* `Relay.decoded` — a stream with each of its lines decoded.

## Main results

* `Relay.isText_of_emitted?` — what is passed on for a line is a text.
* `Relay.cutIntoLines_decoded` — decoding line by line keeps the lines apart.
* `Relay.decoded_eq_self_iff` — decoding changes a stream exactly when it is not UTF-8.
* `Relay.stream_utf8` — relayed output is UTF-8, and output that is UTF-8 is relayed as it is.
-/

namespace DocHarvest

/-- What a writer takes is among what it is offered. -/
theorem Writer.mem_of_mem_taken {writer : Writer} {texts : List Bytes} {text : Bytes}
    (h : text ∈ writer.taken texts) : text ∈ texts := by
  rw [Writer.taken] at h
  split at h
  · exact h
  · exact List.mem_of_mem_take h

/-- A writer that does not fail takes all that it is offered. -/
theorem Writer.taken_eq_self {writer : Writer} {texts : List Bytes}
    (h : writer.failure? texts.length = none) : writer.taken texts = texts := by
  rw [Writer.failure?] at h
  rw [Writer.taken]
  split at h
  · rfl
  · next n cause hlimit =>
    split at h
    · cases h
    · next hle => exact List.take_of_length_le (Nat.not_lt.mp hle)

namespace Relay

/-! ### What is passed on is text -/

/-- **What is passed on for a line is a text.** -/
theorem isText_of_emitted? {verbose : Bool} {raw out : Bytes}
    (h : emitted? verbose raw = some out) : Utf8.IsText out := by
  obtain ⟨text, hdecodes, hpasses⟩ := emitted?_eq_iff.mp h
  obtain rfl := decodes_iff.mp hdecodes
  have htext := isText_decodeLine raw
  cases hpasses with
  | verbose => exact htext
  | message => exact htext
  | cache hannounced =>
    obtain ⟨directories, hline⟩ := announces_iff.mp hannounced
    have hname := (hline.isText (isText_withoutLineFeed htext)).2
    exact hname.append (Utf8.isText_utf8 "\n")

/-- The texts that a writer takes for a stream are those of its lines. -/
theorem stream_writes (verbose : Bool) (input : Bytes) (ending : Source.Ending) (writer : Writer) :
    (stream verbose input ending writer).2.writes =
      (writer.taken ((Bytes.lines input).filterMap (emitted? verbose))).reverse ++
        writer.writes := by
  have hwriter : (stream verbose input ending writer).2 =
      (lines verbose (Bytes.lines input) writer).2 := by
    simp only [stream]
    rcases lines verbose (Bytes.lines input) writer with ⟨_ | _, after⟩ <;> cases ending <;> rfl
  rw [hwriter]
  exact (lines_eq verbose (Bytes.lines input) writer).2

/-- What a stream writes: the texts that it passes on, as far as the writer takes them. -/
theorem written_stream (verbose : Bool) (input : Bytes) (ending : Source.Ending)
    (writer : Writer) :
    (stream verbose input ending writer).2.written =
      writer.written ++
        (writer.taken ((Bytes.lines input).filterMap (emitted? verbose))).flatten := by
  rw [Writer.written, stream_writes, List.reverse_append, List.reverse_reverse,
    List.flatten_append, Writer.written]

/-! ### Lines are decoded one by one -/

/-- A line that is UTF-8 is decoded as itself. -/
theorem decodeLine_of_isText {line : Bytes} (h : Utf8.IsText line) : decodeLine line = line :=
  decodes_iff.mp (.asIs h)

/-- The line feed at the end of a line plays no part in its decoding. -/
theorem decodeLine_append_lineFeed (body : Bytes) :
    decodeLine (body ++ [Byte.lineFeed]) = decodeLine body ++ [Byte.lineFeed] := by
  have htext : Utf8.isValid (body ++ [Byte.lineFeed]) = Utf8.isValid body := by
    rw [Bool.eq_iff_iff, Utf8.isValid_iff, Utf8.isValid_iff,
      Utf8.isText_append_cons_iff (by decide)]
    exact and_iff_left Utf8.isText_nil
  rw [decodeLine, decodeLine, htext]
  split
  · rfl
  · rw [Utf8.ofLatin1, List.map_append, utf8Chars_append, ← Utf8.ofLatin1]
    rfl

/-- A line is not lost when it is decoded. -/
theorem decodeLine_ne_nil {line : Bytes} (h : line ≠ []) : decodeLine line ≠ [] := by
  intro hnil
  rw [decodeLine] at hnil
  split at hnil
  · exact h hnil
  · have hchars := Utf8.utf8Chars_injective (hnil.trans utf8Chars_nil.symm)
    exact h (List.map_eq_nil_iff.mp hchars)

/-- Different bytes stand for different characters. -/
theorem latin1_injective : Function.Injective fun b : UInt8 => Char.ofNat b.toNat := by
  have hcode : ∀ b : UInt8, (Char.ofNat b.toNat).toNat = b.toNat := by
    intro b
    have hlt := b.toNat_lt
    rw [Char.ofNat, dif_pos (show b.toNat.isValidChar from .inl (by omega))]
    rfl
  intro a b hab
  have hcodes := congrArg Char.toNat hab
  dsimp only at hcodes
  rw [hcode, hcode] at hcodes
  exact UInt8.toNat_inj.mp hcodes

/-- Decoding neither makes nor loses line feeds. -/
theorem lineFeeds_decodeLine (line : Bytes) :
    Bytes.lineFeeds (decodeLine line) = Bytes.lineFeeds line := by
  rw [decodeLine]
  split
  · rfl
  · rw [Bytes.lineFeeds, Utf8.ofLatin1, Utf8.count_utf8Chars (by decide), Bytes.lineFeeds]
    exact List.count_map_of_injective line _ latin1_injective Byte.lineFeed

/-- No line feed comes from decoding a line. -/
theorem lineFeed_not_mem_decodeLine {body : Bytes} (h : Byte.lineFeed ∉ body) :
    Byte.lineFeed ∉ decodeLine body := by
  have hcount := lineFeeds_decodeLine body
  rw [Bytes.lineFeeds, Bytes.lineFeeds, List.count_eq_zero_of_not_mem h] at hcount
  exact List.count_eq_zero.mp hcount

/-! ### Streams decoded line by line -/

/-- A stream with each of its lines decoded. -/
def decoded (input : Bytes) : Bytes :=
  ((Bytes.lines input).map decodeLine).flatten

/-- **Decoding line by line keeps the lines apart.** -/
theorem cutIntoLines_decoded {input : Bytes} {ls : List Bytes} (h : Bytes.CutIntoLines input ls) :
    Bytes.CutIntoLines (decoded input) (ls.map decodeLine) := by
  rw [decoded, ← h.eq_lines]
  induction h with
  | done => exact .done
  | tail unbroken left =>
    rw [List.map_singleton, List.flatten_singleton]
    exact .tail (lineFeed_not_mem_decodeLine unbroken) (decodeLine_ne_nil left)
  | line unbroken _ ih =>
    rw [List.map_cons, List.flatten_cons, decodeLine_append_lineFeed, List.append_assoc]
    exact .line (lineFeed_not_mem_decodeLine unbroken) ih

/-- Decoding keeps the number of line feeds. -/
theorem lineFeeds_decoded (input : Bytes) :
    Bytes.lineFeeds (decoded input) = Bytes.lineFeeds input := by
  have hflatten : ∀ ls : List Bytes,
      Bytes.lineFeeds (ls.map decodeLine).flatten = Bytes.lineFeeds ls.flatten := by
    intro ls
    induction ls with
    | nil => rfl
    | cons line ls ih =>
      rw [List.map_cons, List.flatten_cons, List.flatten_cons, Bytes.lineFeeds_append,
        Bytes.lineFeeds_append, lineFeeds_decodeLine, ih]
  rw [decoded, hflatten, Bytes.flatten_lines]

/-- **A stream is UTF-8 exactly when its lines are.** -/
theorem isText_iff_lines {input : Bytes} {ls : List Bytes} (h : Bytes.CutIntoLines input ls) :
    Utf8.IsText input ↔ ∀ line ∈ ls, Utf8.IsText line := by
  induction h with
  | done => simp [Utf8.isText_nil]
  | tail => simp
  | line _ _ ih =>
    rw [Utf8.isText_append_cons_iff (by decide), ih, List.forall_mem_cons,
      Utf8.isText_append_cons_iff (by decide), and_iff_left Utf8.isText_nil]

/-- What was decoded is UTF-8. -/
theorem isText_decoded (input : Bytes) : Utf8.IsText (decoded input) := by
  refine Utf8.isText_flatten fun text htext => ?_
  obtain ⟨line, -, rfl⟩ := List.mem_map.mp htext
  exact isText_decodeLine line

/-- **Decoding changes a stream exactly when it is not UTF-8.** -/
theorem decoded_eq_self_iff {input : Bytes} : decoded input = input ↔ Utf8.IsText input := by
  constructor
  · intro heq
    rw [← heq]
    exact isText_decoded input
  · intro htext
    have hlines := (isText_iff_lines (Bytes.cutIntoLines_lines input)).mp htext
    have hmap : (Bytes.lines input).map decodeLine = (Bytes.lines input).map id :=
      List.map_congr_left fun line hline => decodeLine_of_isText (hlines line hline)
    rw [decoded, hmap, List.map_id, Bytes.flatten_lines]

/-- A verbose relay decodes every line. -/
theorem written_stream_verbose {input : Bytes} {writer : Writer}
    (h : writer.failure? (Bytes.lines input).length = none) (ending : Source.Ending) :
    (stream true input ending writer).2.written = writer.written ++ decoded input := by
  have hemitted : emitted? true = some ∘ decodeLine := rfl
  rw [written_stream, hemitted, List.filterMap_eq_map, Writer.taken_eq_self, decoded]
  rwa [List.length_map]

/-- **Relayed output is UTF-8, and output that is UTF-8 is relayed as it is.** What a stream adds to
any writer is UTF-8, whether it is verbose or not. A verbose stream, sent to a writer that does not
fail, adds the lines of the input in their order, each as it is if it is UTF-8 and else with every
byte read as one character. There are as many line feeds as before. The output is the input exactly
when every line of the input is UTF-8, so relaying the output once more gives it again. -/
theorem stream_utf8 (input : Bytes) (ending : Source.Ending) :
    (∀ verbose writer, ∃ new,
      (stream verbose input ending writer).2.written = writer.written ++ new ∧
        Utf8.IsText new) ∧
    ∃ out ls ls',
      (∀ writer : Writer, writer.failure? ls.length = none →
        (stream true input ending writer).2.written = writer.written ++ out) ∧
      Bytes.CutIntoLines input ls ∧ Bytes.CutIntoLines out ls' ∧ List.Forall₂ Decodes ls ls' ∧
      Bytes.lineFeeds out = Bytes.lineFeeds input ∧
      (out = input ↔ ∀ line ∈ ls, Utf8.IsText line) ∧
      (∀ again, ∀ writer : Writer, writer.failure? ls'.length = none →
        (stream true out again writer).2.written = writer.written ++ out) := by
  constructor
  · intro verbose writer
    refine ⟨_, written_stream verbose input ending writer, Utf8.isText_flatten ?_⟩
    intro text htext
    obtain ⟨raw, -, hemitted⟩ := List.mem_filterMap.mp (Writer.mem_of_mem_taken htext)
    exact isText_of_emitted? hemitted
  · have hls := Bytes.cutIntoLines_lines input
    have hout := cutIntoLines_decoded hls
    refine ⟨decoded input, Bytes.lines input, _, fun writer h => written_stream_verbose h ending,
      hls, hout, ?_, lineFeeds_decoded input, ?_, ?_⟩
    · rw [List.forall₂_map_right_iff, List.forall₂_same]
      exact fun line _ => decodes_iff.mpr rfl
    · rw [decoded_eq_self_iff, isText_iff_lines hls]
    · intro again writer h
      rw [hout.eq_lines] at h
      rw [written_stream_verbose h, decoded_eq_self_iff.mpr (isText_decoded input)]

/-- A line that is not UTF-8 is read byte by byte, and the one after it stays as it is. -/
example : decoded [0xE9, Byte.lineFeed, 0xC3, 0xA9] =
    [0xC3, 0xA9, Byte.lineFeed, 0xC3, 0xA9] := by
  decide

end Relay

end DocHarvest
