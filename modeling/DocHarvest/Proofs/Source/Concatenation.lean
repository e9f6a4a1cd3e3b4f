import DocHarvest.Proofs.Source.Recognition
import DocHarvest.Source.DocString

/-!
# One Source After Another

A source that can be scanned to its end, and that ends with a line feed, leaves nothing behind: no
literal, comment or word goes on after it, and no bracket is open. Whatever bytes follow it are
scanned as if they were a source of their own, only some lines further down.

The elements of the first source may look at what follows them, but never past its last line feed.
So they fit the longer text as well, and the elements of the second source come after them.

## Main definitions

* `Token.down`, `ScanError.down`, `DocString.down` — the same some lines further down.

## Main results

* `Element.Fits.append` — what follows an element may be continued.
* `Splits.cuts_append` — the elements of a source that ends its last line stand before any text.
* `scan_append` — scanning two sources, one after the other.
-/

namespace DocHarvest

/-- A documentation string some lines further down. -/
def DocString.down (n : Nat) (d : DocString) : DocString :=
  { d with line := d.line + n }

namespace Source

/-- A token some lines further down. -/
def Token.down (n : Nat) (token : Token) : Token :=
  { token with line := token.line + n }

/-- An error some lines further down. -/
def ScanError.down (n : Nat) : ScanError → ScanError
  | malformed what line => malformed what (line + n)
  | unreadable cause => unreadable cause

/-- The end of a scan some lines further down. -/
def endDown (n : Nat) : Except ScanError Token → Except ScanError Token
  | .ok token => .ok (token.down n)
  | .error e => .error (e.down n)

/-! ### Some lines further down -/

/-- Elements that start further down have their tokens further down. -/
theorem placed_add (line n : Nat) (es : List Element) :
    placed (line + n) es = (placed line es).map (Token.down n) := by
  induction es generalizing line with
  | nil => rfl
  | cons e es ih =>
    have hline : line + n + Bytes.lineFeeds e.text = line + Bytes.lineFeeds e.text + n := by omega
    cases hkind : e.kind? with
    | none => rw [placed, placed, hkind, hline, ih]
    | some kind =>
      simp only [placed, hkind, hline, ih, List.map_cons]
      rfl

/-- How a scan halts depends on the line only through the line that it gives. -/
theorem Halts.down {ending : Ending} {depth line : Nat} {rest : Bytes}
    {outcome : Except ScanError Token} (h : Halts ending depth line rest outcome) (n : Nat) :
    Halts ending depth (line + n) rest (endDown n outcome) := by
  cases h with
  | finished hending hdepth hrest => exact .finished hending hdepth hrest
  | openBracket hending hdepth hrest => exact .openBracket hending hdepth hrest
  | unreadable hending hrest => exact .unreadable hending hrest
  | lostWord hending hfits hword hrest => exact .lostWord hending hfits hword hrest
  | broken hopens hrest hcut => exact .broken hopens hrest hcut
  | @interrupted _ _ long _ hopens hrest hcut =>
    have hdown : (Scanner.interrupted ending long line).down n =
        Scanner.interrupted ending long (line + n) := by
      cases ending <;> rfl
    rw [endDown, hdown]
    exact .interrupted hopens hrest hcut

/-- A token further down is documentation further down. -/
theorem docString?_down (name : Bytes) (n : Nat) (token : Token) :
    docString? name (token.down n) = (docString? name token).map (DocString.down n) := by
  by_cases hkind : token.kind = .string
  · cases htext : docText? token.text <;>
      simp [docString?, Token.down, hkind, htext, DocString.down]
  · simp [docString?, Token.down, hkind]

/-! ### Across the boundary -/

/-- Bytes that follow a text of at least two do not decide whether two quotes start it. -/
theorem Literal.Opens.append {mark : Bytes} {q : UInt8} {long : Bool} {after : Bytes}
    (h : Opens mark q long after) (hlen : 2 ≤ after.length) (b : Bytes) :
    Opens mark q long (after ++ b) := by
  refine ⟨h.isMark, h.isQuote, fun hlong hpre => h.tripled hlong ?_⟩
  exact List.prefix_of_prefix_length_le hpre (List.prefix_append after b) hlen

/-- What follows an element may be continued, when there is something: an element looks no
further than one byte past its end. -/
theorem Element.Fits.append {e : Element} {more : Bytes} (h : e.Fits more) (hne : more ≠ [])
    (b : Bytes) : e.Fits (more ++ b) := by
  have hhead : (more ++ b).head? = more.head? := by
    obtain ⟨c, tail, rfl⟩ := List.exists_cons_of_ne_nil hne
    rfl
  have hrun : ∀ {word : Bytes}, MaximalRun word more → MaximalRun word (more ++ b) :=
    fun hrun => ⟨hrun.inside, hhead ▸ hrun.stops⟩
  cases e with
  | blank c => exact h
  | comment body => exact ⟨h.1, hhead ▸ h.2⟩
  | name word => exact ⟨hrun h.1, h.2.1, hhead ▸ h.2.2⟩
  | number word => exact ⟨hrun h.1, h.2⟩
  | string literal =>
    obtain ⟨hopens, hreads, hcloses⟩ := h
    refine ⟨?_, hreads, hcloses⟩
    rw [← List.append_assoc]
    refine hopens.append ?_ b
    have hpos := List.length_pos_iff.mpr hne
    cases literal.long <;> simp [Literal.delimiter] <;> omega
  | op c => exact h

/-- The only element that ends with a line feed is the line feed. -/
theorem Element.eq_blank_of_getLast? {e : Element} {more : Bytes} (h : e.Fits more)
    (hlast : e.text.getLast? = some Byte.lineFeed) : e = .blank Byte.lineFeed := by
  have hmem : Byte.lineFeed ∈ e.text := List.mem_of_getLast? hlast
  have hname : ¬ isNameByte Byte.lineFeed := by decide
  cases e with
  | blank c => simpa [text, eq_comm] using hmem
  | comment body =>
    have hhash : Byte.lineFeed ≠ Byte.hash := by decide
    exact absurd hmem (List.not_mem_cons_of_ne_of_not_mem hhash h.1)
  | name word => exact absurd (h.1.inside _ hmem) hname
  | number word => exact absurd (h.1.inside _ hmem) hname
  | string literal =>
    have hquote : (Literal.delimiter literal.quote literal.long).getLast? = some literal.quote := by
      cases literal.long <;> rfl
    rw [text, Literal.text, List.getLast?_append, hquote] at hlast
    exact absurd (Option.some.inj hlast) (ne_lineFeed_of_isQuote h.opens.isQuote)
  | op c =>
    obtain rfl : c = Byte.lineFeed := by simpa [text, eq_comm] using hmem
    exact absurd (by decide) h.1

/-- **No element reaches over the end of a line that ends a source.** The elements of the source
stand before any text. -/
theorem Splits.cuts_append {a : Bytes} {es : List Element} (h : Splits a es)
    (hend : a = [] ∨ a.getLast? = some Byte.lineFeed) (b : Bytes) : Cuts (a ++ b) es b := by
  unfold Splits at h
  induction es generalizing a with
  | nil =>
    obtain rfl := Cuts.nil_iff.mp h
    exact .stop b
  | cons e es ih =>
    obtain ⟨more, rfl, hfits, hcuts⟩ := Cuts.cons_iff.mp h
    have hlast : (e.text ++ more).getLast? = some Byte.lineFeed :=
      hend.resolve_left (by simp [Element.text_ne_nil hfits])
    rw [List.append_assoc]
    by_cases hmore : more = []
    · subst hmore
      rw [List.append_nil] at hlast
      obtain rfl := Element.eq_blank_of_getLast? hfits hlast
      exact .step hfits (ih hcuts (.inl rfl))
    · have hlast' : more.getLast? = some Byte.lineFeed := by
        rwa [List.getLast?_append, List.getLast?_eq_some_getLast hmore, Option.some_or,
          ← List.getLast?_eq_some_getLast hmore] at hlast
      exact .step (hfits.append hmore b) (ih hcuts (.inr hlast'))

/-- A source that is scanned to the end of the file splits into its tokens and closes its
brackets. -/
theorem splits_of_scan {name a : Bytes} {tokens : List Token} {last : Token}
    (h : scan ⟨name, a, .complete⟩ = (tokens, .ok last)) :
    ∃ es, Splits a es ∧ nesting es = 0 ∧ tokens = placed 1 es := by
  rcases scan_cases name a with ⟨es, hsplits, hscan⟩ | ⟨es, rest, what, -, -, hscan⟩
  · rw [hscan, closingResult, Prod.mk.injEq] at h
    obtain ⟨rfl, hlast⟩ := h
    by_cases hdepth : nesting es = 0
    · exact ⟨es, hsplits, hdepth, rfl⟩
    · rw [if_neg hdepth] at hlast
      simp at hlast
  · rw [hscan] at h
    simp at h

/-- Scanning a text after elements that close their brackets. -/
theorem scan_of_cuts (name : Bytes) {s rest : Bytes} {es : List Element} (h : Cuts s es rest)
    (hdepth : nesting es = 0) :
    scan ⟨name, s, .complete⟩ =
      (placed 1 es ++ (scan ⟨name, rest, .complete⟩).1.map
          (Token.down (Bytes.lineFeeds (spelled es))),
        endDown (Bytes.lineFeeds (spelled es)) (scan ⟨name, rest, .complete⟩).2) := by
  obtain ⟨es', rest', outcome, hcuts, hscan, hhalts⟩ := scan_halts ⟨name, rest, .complete⟩
  have hnest : nesting (es ++ es') = nesting es' := by
    rw [nesting, List.foldl_append, ← nesting, hdepth, ← nesting]
  have hline : 1 + Bytes.lineFeeds (spelled (es ++ es')) =
      1 + Bytes.lineFeeds (spelled es') + Bytes.lineFeeds (spelled es) := by
    rw [spelled_append, Bytes.lineFeeds_append]
    omega
  have hhalts' : Halts .complete (nesting (es ++ es'))
      (1 + Bytes.lineFeeds (spelled (es ++ es'))) rest'
      (endDown (Bytes.lineFeeds (spelled es)) outcome) := by
    rw [hnest, hline]
    exact hhalts.down _
  rw [scan_eq_of_halts name (h.append hcuts) hhalts', hscan, placed_append, placed_add]

/-- **Scanning two sources, one after the other.** When the first is empty or ends with a line
feed, and is scanned to the end of the file, the tokens are those of the first and then those of
the second, so many lines further down as the first has line feeds, and scanning ends as it does
for the second. The documentation strings follow each other in the same way. -/
theorem scan_append {name a : Bytes} {tokens : List Token} {last : Token}
    (hend : a = [] ∨ a.getLast? = some Byte.lineFeed)
    (h : scan ⟨name, a, .complete⟩ = (tokens, .ok last)) (b : Bytes) :
    scan ⟨name, a ++ b, .complete⟩ =
      (tokens ++ (scan ⟨name, b, .complete⟩).1.map (Token.down (Bytes.lineFeeds a)),
        endDown (Bytes.lineFeeds a) (scan ⟨name, b, .complete⟩).2) ∧
    docStrings ⟨name, a ++ b, .complete⟩ =
      ((docStrings ⟨name, a, .complete⟩).1 ++
          (docStrings ⟨name, b, .complete⟩).1.map (DocString.down (Bytes.lineFeeds a)),
        (docStrings ⟨name, b, .complete⟩).2.map (ScanError.down (Bytes.lineFeeds a))) := by
  obtain ⟨es, hsplits, hdepth, rfl⟩ := splits_of_scan h
  have hspelled : spelled es = a := by
    simpa using (Cuts.eq_append hsplits).symm
  have hscan := scan_of_cuts name (hsplits.cuts_append hend b) hdepth
  rw [hspelled] at hscan
  refine ⟨hscan, ?_⟩
  have hdown : docString? name ∘ Token.down (Bytes.lineFeeds a) =
      fun token => (docString? name token).map (DocString.down (Bytes.lineFeeds a)) :=
    funext (docString?_down name (Bytes.lineFeeds a))
  rw [docStrings, docStrings, docStrings, hscan, h]
  rcases scan ⟨name, b, .complete⟩ with ⟨others, outcome⟩
  simp only [List.filterMap_append, List.filterMap_map, List.map_filterMap, hdown]
  cases outcome <;> rfl

/-- A bracket that is closed on the next line, and after it documentation and a broken literal. -/
theorem scan_append_broken :
    scan ⟨utf8 "a.py", utf8 "f(\n)\n", .complete⟩ =
      ([⟨.name, utf8 "f", 1⟩, ⟨.op, utf8 "(", 1⟩, ⟨.op, utf8 ")", 2⟩],
        .ok ⟨.endOfFile, [], 3⟩) ∧
    scan ⟨utf8 "a.py", utf8 "f(\n)\n" ++ utf8 "\"\"\"d\"\"\"\n'x\n", .complete⟩ =
      ([⟨.name, utf8 "f", 1⟩, ⟨.op, utf8 "(", 1⟩, ⟨.op, utf8 ")", 2⟩,
        ⟨.string, utf8 "\"\"\"d\"\"\"", 3⟩], .error (.malformed .openLine 4)) ∧
    docStrings ⟨utf8 "a.py", utf8 "f(\n)\n" ++ utf8 "\"\"\"d\"\"\"\n'x\n", .complete⟩ =
      ([⟨utf8 "d", utf8 "a.py", 3⟩], some (.malformed .openLine 4)) := by
  obtain ⟨hscan, hdocs⟩ := @scan_append (utf8 "a.py") (utf8 "f(\n)\n") _ _
    (.inr (by decide)) rfl (utf8 "\"\"\"d\"\"\"\n'x\n")
  exact ⟨rfl, hscan.trans rfl, hdocs.trans rfl⟩

end Source

end DocHarvest
