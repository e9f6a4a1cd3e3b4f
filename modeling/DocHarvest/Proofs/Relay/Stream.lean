import DocHarvest.Proofs.Bytes.Encoding
import DocHarvest.Proofs.Bytes.Lines
import DocHarvest.Relay

/-!
# What a Relay Passes On

A relay takes a stream line by line. Three relations say what becomes of a line without saying how
it is found out: which text the line stands for, which name a text announces as that of a cache, and
what is passed on for a text. Each of them gives one answer for every line, so there is one list of
texts that a stream has to send to its writer.

The writer may take only so many of them. What it took is then the beginning of that list, and its
failure comes before a failure of the stream itself: when all texts were taken, the last of which may
come from an unterminated line, the stream ends as its supply ended.

## Main definitions

* `Relay.Decodes` — the text that a line stands for.
* `Relay.Announces` — a text announces the loading of a cache.
* `Relay.PassesOn` — what is passed on for a text.
* `Writer.taken`, `Writer.failure?` — the texts that a writer takes, and its failure to take more.

## Main results

* `Relay.cacheName?_eq_some_iff` — the name of a cache is found exactly where one is announced.
* `Relay.emitted?_eq_iff` — what is passed on for a line is determined.
* `Relay.lines_eq` — the writes for a list of lines.
* `Relay.stream_passes_on` — the whole stream.
-/

namespace DocHarvest

namespace Bytes

/-- A stem can be dropped from what starts with it. -/
theorem dropStem?_eq_some_iff {stem s rest : Bytes} :
    dropStem? stem s = some rest ↔ s = stem ++ rest := by
  unfold dropStem?
  constructor
  · intro h
    split at h
    · next hstem =>
      obtain ⟨others, rfl⟩ := List.isPrefixOf_iff_prefix.mp hstem
      rw [List.drop_left, Option.some.injEq] at h
      rw [h]
    · cases h
  · rintro rfl
    have hstem : stem.isPrefixOf (stem ++ rest) = true :=
      List.isPrefixOf_iff_prefix.mpr (List.prefix_append stem rest)
    rw [if_pos hstem, List.drop_left]

/-- An end can be dropped from what ends with it. -/
theorem dropEnd?_eq_some_iff {tail s rest : Bytes} :
    dropEnd? tail s = some rest ↔ s = rest ++ tail := by
  unfold dropEnd?
  constructor
  · intro h
    split at h
    · next htail =>
      obtain ⟨others, rfl⟩ := List.isSuffixOf_iff_suffix.mp htail
      rw [List.length_append, Nat.add_sub_cancel, List.take_left, Option.some.injEq] at h
      rw [h]
    · cases h
  · rintro rfl
    have htail : tail.isSuffixOf (rest ++ tail) = true :=
      List.isSuffixOf_iff_suffix.mpr (List.suffix_append rest tail)
    rw [if_pos htail, List.length_append, Nat.add_sub_cancel, List.take_left]

end Bytes

namespace Relay

/-! ### The texts of lines -/

/-- **A line stands for a text**: for itself when it is UTF-8, and else for the characters whose
code points are its bytes. -/
inductive Decodes (line : Bytes) : Bytes → Prop
  | asIs (text : Utf8.IsText line) : Decodes line line
  | latin1 (noText : ¬ Utf8.IsText line) :
      Decodes line (utf8Chars (line.map fun b => Char.ofNat b.toNat))

/-- A line is decoded in one way, the one that is computed. -/
theorem decodes_iff {line text : Bytes} : Decodes line text ↔ decodeLine line = text := by
  unfold decodeLine
  by_cases htext : Utf8.IsText line
  · rw [if_pos (Utf8.isValid_iff.mpr htext)]
    constructor
    · rintro (_ | hno)
      · rfl
      · exact absurd htext hno
    · rintro rfl
      exact .asIs htext
  · rw [if_neg (fun hvalid => htext (Utf8.isValid_iff.mp hvalid)), Utf8.ofLatin1]
    constructor
    · rintro (hyes | _)
      · exact absurd hyes htext
      · rfl
    · rintro rfl
      exact .latin1 htext

/-! ### Announced caches -/

/-- A text less one line feed at its end, if there is one. -/
inductive Body : Bytes → Bytes → Prop
  | ended (body : Bytes) : Body (body ++ [Byte.lineFeed]) body
  | unended {body : Bytes} (unterminated : body.getLast? ≠ some Byte.lineFeed) : Body body body

/-- A text has one body, the one that is computed. -/
theorem body_iff {text body : Bytes} : Body text body ↔ withoutLineFeed text = body := by
  have hended : ∀ rest : Bytes, withoutLineFeed (rest ++ [Byte.lineFeed]) = rest := by
    intro rest
    rw [withoutLineFeed, Bytes.dropEnd?_eq_some_iff.mpr rfl, Option.getD_some]
  have hopen : ∀ rest : Bytes, rest.getLast? ≠ some Byte.lineFeed →
      withoutLineFeed rest = rest := by
    intro rest hlast
    cases hdrop : Bytes.dropEnd? [Byte.lineFeed] rest with
    | none => rw [withoutLineFeed, hdrop, Option.getD_none]
    | some others =>
      rw [Bytes.dropEnd?_eq_some_iff.mp hdrop, List.getLast?_concat] at hlast
      exact absurd rfl hlast
  constructor
  · rintro (_ | hlast)
    · exact hended body
    · exact hopen text hlast
  · rintro rfl
    by_cases hlast : text.getLast? = some Byte.lineFeed
    · obtain ⟨rest, rfl⟩ := List.getLast?_eq_some_iff.mp hlast
      rw [hended rest]
      exact .ended rest
    · rw [hopen text hlast]
      exact .unended hlast

/-- **A text announces the loading of a cache**: it consists of a word, a path whose last name is
that of the cache, and an ending. No line feed stands in the path before its last slash. -/
def Announces (text name : Bytes) : Prop :=
  ∃ body directories, Body text body ∧
    body = utf8 "Loading " ++ directories ++ utf8 "/" ++ name ++ utf8 ".cache..." ∧
    Byte.lineFeed ∉ directories ∧ name ≠ [] ∧ Byte.slash ∉ name

/-- A text is split at its last slash. -/
theorem splitLastSlash?_eq_some_iff {s before after : Bytes} :
    splitLastSlash? s = some (before, after) ↔
      s = before ++ Byte.slash :: after ∧ Byte.slash ∉ after := by
  have hcut : ∀ front back : Bytes, Byte.slash ∉ back →
      splitLastSlash? (front ++ Byte.slash :: back) = some (front, back) := by
    intro front back hback
    have hreverse : ((front ++ Byte.slash :: back).reverse.takeWhile
        (· ≠ Byte.slash)).reverse = back := by
      have hall : ∀ b ∈ back.reverse, (decide (b ≠ Byte.slash)) = true := by
        intro b hb
        exact decide_eq_true fun heq => hback (heq ▸ List.mem_reverse.mp hb)
      rw [List.reverse_append, List.reverse_cons, List.append_assoc,
        List.takeWhile_append_of_pos hall]
      simp
    have hlength : (front ++ Byte.slash :: back).length - back.length - 1 = front.length := by
      rw [List.length_append, List.length_cons]
      omega
    have hmem : (front ++ Byte.slash :: back).contains Byte.slash = true := by simp
    rw [splitLastSlash?, if_pos hmem]
    simp only [hreverse, hlength, List.take_left]
  constructor
  · intro h
    by_cases hmem : Byte.slash ∈ s
    · have hlast : Byte.slash ∈ s.reverse := List.mem_reverse.mpr hmem
      obtain ⟨back, front, hs, hback⟩ := List.eq_append_cons_of_mem hlast
      have hsplit : s = front.reverse ++ Byte.slash :: back.reverse := by
        rw [← List.reverse_reverse s, hs]
        simp
      have hnot : Byte.slash ∉ back.reverse := fun hb => hback (List.mem_reverse.mp hb)
      rw [hsplit, hcut _ _ hnot, Option.some.injEq, Prod.mk.injEq] at h
      obtain ⟨rfl, rfl⟩ := h
      exact ⟨hsplit, hnot⟩
    · simp [splitLastSlash?, hmem] at h
  · rintro ⟨rfl, hafter⟩
    exact hcut before after hafter

/-- The ending of an announcement holds no slash. -/
theorem slash_not_mem_ending : Byte.slash ∉ utf8 ".cache..." := by decide

/-- **The name of a cache is found exactly where one is announced.** -/
theorem cacheName?_eq_some_iff {text name : Bytes} :
    cacheName? text = some name ↔ Announces text name := by
  have hslash : ∀ front back : Bytes, front ++ utf8 "/" ++ back = front ++ Byte.slash :: back := by
    intro front back
    simp [show utf8 "/" = [Byte.slash] by decide]
  simp only [cacheName?, Option.bind_eq_bind, Option.bind_eq_some_iff, Bytes.dropStem?_eq_some_iff,
    Bytes.dropEnd?_eq_some_iff]
  constructor
  · rintro ⟨path, hpath, ⟨directories, file⟩, hsplit, name', hfile, hname⟩
    obtain ⟨rfl, hslashes⟩ := splitLastSlash?_eq_some_iff.mp hsplit
    obtain rfl : file = name' ++ utf8 ".cache..." := hfile
    split at hname
    · cases hname
    next hgood =>
    obtain rfl := Option.some.inj hname
    simp only [Bool.or_eq_true, List.contains_iff_mem, List.isEmpty_iff, not_or] at hgood
    refine ⟨_, directories, body_iff.mpr hpath, ?_, hgood.1, hgood.2, fun hmem => ?_⟩
    · simp only [List.append_assoc, ← hslash]
    · exact hslashes (List.mem_append_left _ hmem)
  · rintro ⟨body, directories, hbody, rfl, hfeed, hname, hslashes⟩
    refine ⟨directories ++ Byte.slash :: (name ++ utf8 ".cache..."), ?_,
      (directories, name ++ utf8 ".cache..."), ?_, name, rfl, ?_⟩
    · rw [body_iff.mp hbody]
      simp only [List.append_assoc, ← hslash]
    · refine splitLastSlash?_eq_some_iff.mpr ⟨rfl, fun hmem => ?_⟩
      rcases List.mem_append.mp hmem with hin | hin
      · exact hslashes hin
      · exact slash_not_mem_ending hin
    · simp [hfeed, hname]

/-! ### What is passed on -/

/-- **What is passed on for a text**, if anything is: everything when the relay is verbose; and
else a text that does not start like routine, and the name of an announced cache on a line of its
own. -/
inductive PassesOn : Bool → Bytes → Option Bytes → Prop
  | verbose (text : Bytes) : PassesOn true text (some text)
  | message {text : Bytes} (noRoutine : ∀ start ∈ routine, ¬ start <+: text) :
      PassesOn false text (some text)
  | cache {text name : Bytes} (announced : Announces text name) :
      PassesOn false text (some (name ++ [Byte.lineFeed]))
  | dropped {text start : Bytes} (isRoutine : start ∈ routine) (starts : start <+: text)
      (noCache : ∀ name, ¬ Announces text name) : PassesOn false text none

/-- Routine lines are told by how they start. -/
theorem isRoutine_iff {text : Bytes} :
    isRoutine text = true ↔ ∃ start ∈ routine, start <+: text := by
  simp only [isRoutine, List.any_eq_true, List.isPrefixOf_iff_prefix]

/-- An announcement starts like routine. -/
theorem Announces.starts {text name : Bytes} (h : Announces text name) :
    utf8 "Loading " <+: text := by
  obtain ⟨body, directories, hbody, rfl, -⟩ := h
  have hstem : utf8 "Loading " <+:
      utf8 "Loading " ++ directories ++ utf8 "/" ++ name ++ utf8 ".cache..." := by
    simp only [List.append_assoc]
    exact List.prefix_append _ _
  cases hbody with
  | ended => exact hstem.trans (List.prefix_append _ _)
  | unended => exact hstem

/-- **What is passed on for a line is determined**: by the text that it stands for, and by what
that text starts with and announces. -/
theorem emitted?_eq_iff {verbose : Bool} {line : Bytes} {out? : Option Bytes} :
    emitted? verbose line = out? ↔ ∃ text, Decodes line text ∧ PassesOn verbose text out? := by
  simp only [decodes_iff, exists_eq_left']
  generalize htext : decodeLine line = text
  unfold emitted?
  rw [htext]
  cases verbose with
  | true =>
    simp only [if_true]
    constructor
    · rintro rfl
      exact .verbose text
    · rintro ⟨⟩
      rfl
  | false =>
    simp only [Bool.false_eq_true, if_false]
    have hnone : (∀ name, ¬ Announces text name) ↔ cacheName? text = none := by
      rw [Option.eq_none_iff_forall_not_mem]
      exact forall_congr' fun name => not_congr cacheName?_eq_some_iff.symm
    constructor
    · rintro rfl
      cases hcache : cacheName? text with
      | some name => exact .cache (cacheName?_eq_some_iff.mp hcache)
      | none =>
        by_cases hroutine : isRoutine text = true
        · obtain ⟨start, hstart, hstarts⟩ := isRoutine_iff.mp hroutine
          simp only [if_pos hroutine]
          exact .dropped hstart hstarts (hnone.mpr hcache)
        · simp only [if_neg hroutine]
          exact .message fun start hstart hstarts =>
            hroutine (isRoutine_iff.mpr ⟨start, hstart, hstarts⟩)
    · rintro (_ | hfree | hannounced | ⟨hstart, hstarts, hfree⟩)
      · have hroutine : ¬ isRoutine text = true := fun h => by
          obtain ⟨start, hstart, hstarts⟩ := isRoutine_iff.mp h
          exact hfree start hstart hstarts
        have hcache : cacheName? text = none := by
          refine hnone.mp fun name hannounced => ?_
          exact hfree (utf8 "Loading ") (by simp [routine]) hannounced.starts
        simp only [hcache, if_neg hroutine]
      · rw [cacheName?_eq_some_iff.mpr hannounced]
      · have hroutine : isRoutine text = true := isRoutine_iff.mpr ⟨_, hstart, hstarts⟩
        simp only [hnone.mp hfree, if_pos hroutine]

end Relay

/-! ### Writers with a limit -/

namespace Writer

/-- Of a list of texts, those that a writer takes. -/
def taken (writer : Writer) (texts : List Bytes) : List Bytes :=
  match writer.limit? with
  | none => texts
  | some (n, _) => texts.take n

/-- The failure of a writer that is offered so many texts. -/
def failure? (writer : Writer) (count : Nat) : Option Cause :=
  match writer.limit? with
  | none => none
  | some (n, cause) => if n < count then some cause else none

end Writer

namespace Relay

/-- **The writes for a list of lines**: each text that is passed on is one write, in their order,
up to the first that fails. -/
theorem lines_eq (verbose : Bool) (ls : List Bytes) (writer : Writer) :
    let texts := ls.filterMap (emitted? verbose)
    (lines verbose ls writer).1 =
        (match writer.failure? texts.length with
        | some cause => .error cause
        | none => .ok ()) ∧
      (lines verbose ls writer).2.writes = (writer.taken texts).reverse ++ writer.writes := by
  induction ls generalizing writer with
  | nil =>
    obtain ⟨writes, _ | ⟨n, cause⟩⟩ := writer <;>
      simp [lines, Writer.failure?, Writer.taken]
  | cons first others ih =>
    cases hfirst : emitted? verbose first with
    | none =>
      simp only [lines, line, hfirst, List.filterMap_cons_none hfirst]
      exact ih writer
    | some text =>
      simp only [lines, line, hfirst, List.filterMap_cons_some hfirst]
      obtain ⟨writes, _ | ⟨n, cause⟩⟩ := writer
      · obtain ⟨hresult, hwrites⟩ := ih ⟨text :: writes, none⟩
        simp only [Writer.write]
        exact ⟨hresult, by rw [hwrites]; simp [Writer.taken]⟩
      · cases n with
        | zero => simp [Writer.write, Writer.failure?, Writer.taken]
        | succ n =>
          obtain ⟨hresult, hwrites⟩ := ih ⟨text :: writes, some (n, cause)⟩
          simp only [Writer.write]
          refine ⟨?_, by rw [hwrites]; simp [Writer.taken]⟩
          rw [hresult]
          simp [Writer.failure?]

/-- How a stream ends that was passed on in full. -/
def endingResult : Source.Ending → Except Cause Unit
  | .complete => .ok ()
  | .failure cause => .error cause

/-- **What a stream passes on.** The stream is cut into lines, each of them is decoded on its own,
and what is passed on goes to the writer in their order, each text in one write. A writer that
takes fewer texts than there are fails the stream; otherwise the stream ends as its supply does.
There is only one way to cut the stream and one answer for each line (`Bytes.cutIntoLines_iff`,
`emitted?_eq_iff`). -/
theorem stream_passes_on (verbose : Bool) (input : Bytes) (ending : Source.Ending)
    (writer : Writer) :
    ∃ (ls : List Bytes) (out? : Bytes → Option Bytes),
      Bytes.CutIntoLines input ls ∧
      (∀ line ∈ ls, ∃ text, Decodes line text ∧ PassesOn verbose text (out? line)) ∧
      (stream verbose input ending writer).1 =
        (match writer.failure? (ls.filterMap out?).length with
        | some cause => .error cause
        | none => endingResult ending) ∧
      (stream verbose input ending writer).2.writes =
        (writer.taken (ls.filterMap out?)).reverse ++ writer.writes := by
  obtain ⟨hresult, hwrites⟩ := lines_eq verbose (Bytes.lines input) writer
  refine ⟨Bytes.lines input, emitted? verbose, Bytes.cutIntoLines_lines input,
    fun line _ => emitted?_eq_iff.mp rfl, ?_⟩
  rcases hlines : lines verbose (Bytes.lines input) writer with ⟨result, after⟩
  rw [hlines] at hresult hwrites
  simp only at hresult hwrites
  unfold stream
  refine ⟨?_, ?_⟩
  · cases hfailure : writer.failure? _ with
    | some cause =>
      rw [hfailure] at hresult
      rw [hlines, hresult]
    | none =>
      rw [hfailure] at hresult
      rw [hlines, hresult]
      cases ending <;> rfl
  · rw [hlines]
    cases result <;> cases ending <;> exact hwrites

end Relay

end DocHarvest
