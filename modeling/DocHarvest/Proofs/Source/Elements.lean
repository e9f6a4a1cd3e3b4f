import DocHarvest.Proofs.Source.Literals

/-!
# Reading the First Token

`Lexeme.first` reads the token that a text begins with. It is compared here with the grammar of
elements. Every token is read where an element of its kind stands, and what is read is an
element that fits what follows it; since reading is a function, a text begins with at most one
element.

## Main results

* `Element.first_eq_of_fits` — a token is read where an element of its kind stands.
* `Lexeme.first_stands` — what is read stands there, or a literal starts that nothing closes.
* `Element.fits_unique` — a text begins with at most one element.
-/

namespace DocHarvest.Source

/-! ### Classes of bytes -/

/-- The two quotes. -/
theorem isQuote_iff {b : UInt8} :
    isQuote b ↔ b = Byte.doubleQuote ∨ b = Byte.singleQuote := by
  simp [isQuote]

/-- The bytes between tokens. A backslash is one of them. -/
theorem isBlank_iff {b : UInt8} :
    isBlank b ↔ b = Byte.space ∨ b = Byte.tab ∨ b = Byte.carriageReturn ∨ b = Byte.formFeed ∨
      b = Byte.lineFeed ∨ b = Byte.backslash := by
  simp [isBlank, or_assoc]

/-- Neither blanks nor quotes nor the hash are name bytes. -/
theorem not_isNameByte_of_mark {b : UInt8} (h : isBlank b ∨ b = Byte.hash ∨ isQuote b) :
    ¬ isNameByte b := by
  rw [isBlank_iff, isQuote_iff] at h
  rcases h with (rfl | rfl | rfl | rfl | rfl | rfl) | rfl | rfl | rfl <;> decide

/-- Neither blanks nor the hash are quotes. -/
theorem not_isQuote_of_blank {b : UInt8} (h : isBlank b ∨ b = Byte.hash) : ¬ isQuote b := by
  rw [isBlank_iff] at h
  rcases h with (rfl | rfl | rfl | rfl | rfl | rfl) | rfl <;> decide

/-- What can start a name can go on with it. -/
theorem isNameByte_of_isNameStart {b : UInt8} (h : isNameStart b) : isNameByte b := by
  simp [isNameByte, h]

/-- A name can go on with a digit. -/
theorem isNameByte_of_isDigit {b : UInt8} (h : Byte.isDigit b) : isNameByte b := by
  simp [isNameByte, h]

/-- A digit does not start a name. -/
theorem not_isNameStart_of_isDigit {b : UInt8} (h : Byte.isDigit b) : ¬ isNameStart b := by
  simp only [Byte.isDigit, Bool.and_eq_true, decide_eq_true_eq, UInt8.le_iff_toNat_le] at h
  simp only [isNameStart, Byte.isLetter, Bool.or_eq_true, Bool.and_eq_true, decide_eq_true_eq,
    UInt8.le_iff_toNat_le, ← UInt8.toNat_inj]
  simp at h ⊢
  omega

/-- The marks of literals are not empty, and could be names. -/
theorem literalMarks_isNameStart :
    ∀ mark ∈ literalMarks, mark ≠ [] ∧ ∀ b ∈ mark, isNameStart b := by
  decide +kernel

/-- A byte that starts a name in small letters does so as it is. -/
theorem isNameStart_of_lower {b : UInt8} (h : isNameStart (Byte.lower b)) : isNameStart b := by
  unfold Byte.lower at h
  split at h
  · next hb => simp [isNameStart, Byte.isLetter, hb]
  · exact h

/-- The letters before a literal are letters a name may start with. -/
theorem isNameStart_of_isLiteralMark {mark : Bytes} (h : isLiteralMark mark) :
    mark ≠ [] ∧ ∀ b ∈ mark, isNameStart b := by
  rw [isLiteralMark, List.contains_iff_mem] at h
  obtain ⟨hne, hall⟩ := literalMarks_isNameStart _ h
  refine ⟨by simpa using hne, fun b hb => isNameStart_of_lower ?_⟩
  exact hall _ (List.mem_map_of_mem hb)

/-! ### Words -/

/-- A run that goes as far as it can is what is taken from the text. -/
theorem MaximalRun.takeWhile_eq {text rest : Bytes} (h : MaximalRun text rest) :
    (text ++ rest).takeWhile isNameByte = text := by
  rw [List.takeWhile_append_of_pos h.inside]
  cases rest with
  | nil => simp
  | cons b rest => simp [h.stops b rfl]

/-- What follows such a run is what is left of the text. -/
theorem MaximalRun.dropWhile_eq {text rest : Bytes} (h : MaximalRun text rest) :
    (text ++ rest).dropWhile isNameByte = rest := by
  rw [List.dropWhile_append_of_pos h.inside]
  cases rest with
  | nil => simp
  | cons b rest => simp [h.stops b rfl]

/-- What is taken from a text is a run that goes as far as it can. -/
theorem maximalRun_takeWhile (s : Bytes) :
    MaximalRun (s.takeWhile isNameByte) (s.dropWhile isNameByte) where
  inside := List.all_eq_true.mp List.all_takeWhile
  stops b hb := by
    have h := List.head?_dropWhile_not isNameByte s
    rw [Option.mem_def.mp hb] at h
    simpa using h

/-! ### Literals -/

/-- Every quote opens a literal, which is long or not. -/
theorem Literal.exists_opens {mark : Bytes} {q : UInt8} (hm : mark = [] ∨ isLiteralMark mark)
    (hq : isQuote q) (rest : Bytes) :
    ∃ long after, q :: rest = Literal.delimiter q long ++ after ∧
      Literal.Opens mark q long after := by
  by_cases h : [q, q] <+: rest
  · obtain ⟨after, rfl⟩ := h
    exact ⟨true, after, rfl, hm, hq, by simp⟩
  · exact ⟨false, rest, rfl, hm, hq, fun _ => h⟩

/-- A literal is read by cutting what follows its opening quotes. -/
theorem Lexeme.literal_eq {mark : Bytes} {q : UInt8} {long : Bool} {after rest : Bytes}
    (h : Literal.Opens mark q long after) (hrest : q :: rest = Literal.delimiter q long ++ after) :
    Lexeme.literal mark q rest =
      match Literal.cut q long after with
      | .closed body more => .token .string (mark ++ Literal.delimiter q long ++ body) more
      | .broken => .brokenLiteral
      | .exhausted => .openLiteral long := by
  have hlong : [q, q].isPrefixOf rest = long := by
    cases long with
    | false =>
      obtain rfl : rest = after := (List.cons.inj hrest).2
      rw [← Bool.not_eq_true, List.isPrefixOf_iff_prefix]
      exact h.tripled rfl
    | true =>
      obtain rfl : rest = [q, q] ++ after := (List.cons.inj hrest).2
      rw [List.isPrefixOf_iff_prefix]
      exact List.prefix_append _ _
  have hdrop : (q :: rest).drop (Literal.delimiter q long).length = after := by
    rw [hrest, List.drop_left]
  cases hcut : Literal.cut q long after <;> simp only [Lexeme.literal, hlong, hdrop, hcut]

/-- Letters before a quote are read together with the literal that the quote opens. -/
theorem Lexeme.first_eq_literal {mark : Bytes} {q b : UInt8} {rest tail : Bytes}
    (hm : mark = [] ∨ isLiteralMark mark) (hq : isQuote q) (heq : b :: tail = mark ++ q :: rest) :
    Lexeme.first b tail = Lexeme.literal mark q rest := by
  rcases hm with rfl | hm
  · obtain ⟨rfl, rfl⟩ := List.cons.inj heq
    simp [Lexeme.first, hq]
  · obtain ⟨hne, hstart⟩ := isNameStart_of_isLiteralMark hm
    have hrun : MaximalRun mark (q :: rest) := by
      refine ⟨fun c hc => isNameByte_of_isNameStart (hstart c hc), ?_⟩
      simpa using not_isNameByte_of_mark (.inr (.inr hq))
    have hb : b ∈ mark := by
      obtain ⟨c, more, rfl⟩ := List.exists_cons_of_ne_nil hne
      simp [(List.cons.inj heq).1]
    have hbq : ¬ isQuote b := fun h =>
      not_isNameByte_of_mark (.inr (.inr h)) (hrun.inside b hb)
    simp only [Lexeme.first, heq, hrun.takeWhile_eq, hrun.dropWhile_eq, hbq, hstart b hb, hq, hm,
      Bool.and_self, if_true, if_false, Bool.false_eq_true]

/-! ### Tokens -/

namespace Element

/-- The bytes of a token are not empty. -/
theorem text_ne_nil {e : Element} {more : Bytes} (h : e.Fits more) : e.text ≠ [] := by
  cases e with
  | blank b => simp [text]
  | comment body => simp [text]
  | name word =>
    obtain ⟨-, ⟨b, hb, -⟩, -⟩ := h
    intro hnil
    simp [text] at hnil
    simp [hnil] at hb
  | number word =>
    obtain ⟨-, b, hb, -⟩ := h
    intro hnil
    simp [text] at hnil
    simp [hnil] at hb
  | string literal =>
    cases hlong : literal.long <;> simp [text, Literal.text, Literal.delimiter, hlong]
  | op b => simp [text]

/-- **Completeness of reading.** A token is read where an element of its kind stands. -/
theorem first_eq_of_fits {e : Element} {kind : Kind} {more tail : Bytes} {b : UInt8}
    (h : e.Fits more) (hk : e.kind? = some kind) (heq : b :: tail = e.text ++ more) :
    Lexeme.first b tail = .token kind e.text more := by
  cases e with
  | blank c => simp [kind?] at hk
  | comment body => simp [kind?] at hk
  | name word =>
    obtain ⟨hrun, ⟨c, hc, hstart⟩, hmark⟩ := h
    obtain rfl : kind = .name := (Option.some.inj hk).symm
    obtain ⟨word, rfl⟩ := List.head?_eq_some_iff.mp hc
    obtain ⟨rfl, rfl⟩ : b = c ∧ tail = word ++ more := List.cons.inj heq
    have hquote : ¬ isQuote b := fun hq =>
      not_isNameByte_of_mark (.inr (.inr hq)) (isNameByte_of_isNameStart hstart)
    have htake : (b :: (word ++ more)).takeWhile isNameByte = b :: word := hrun.takeWhile_eq
    have hdrop : (b :: (word ++ more)).dropWhile isNameByte = more := hrun.dropWhile_eq
    simp only [Lexeme.first, htake, hdrop, hquote, hstart, if_true, if_false, Bool.false_eq_true,
      text]
    rcases more with - | ⟨q, more⟩
    · rfl
    · have hword : ¬ (isQuote q && isLiteralMark (b :: word)) := by
        rw [Bool.and_eq_true]
        exact fun h => hmark ⟨h.2, q, rfl, h.1⟩
      exact if_neg hword
  | number word =>
    obtain ⟨hrun, c, hc, hdigit⟩ := h
    obtain rfl : kind = .number := (Option.some.inj hk).symm
    obtain ⟨word, rfl⟩ := List.head?_eq_some_iff.mp hc
    obtain ⟨rfl, rfl⟩ : b = c ∧ tail = word ++ more := List.cons.inj heq
    have hquote : ¬ isQuote b := fun hq =>
      not_isNameByte_of_mark (.inr (.inr hq)) (isNameByte_of_isDigit hdigit)
    have hstart := not_isNameStart_of_isDigit hdigit
    have htake : (b :: (word ++ more)).takeWhile isNameByte = b :: word := hrun.takeWhile_eq
    have hdrop : (b :: (word ++ more)).dropWhile isNameByte = more := hrun.dropWhile_eq
    simp only [Lexeme.first, htake, hdrop, hquote, hstart, hdigit, if_true, if_false,
      Bool.false_eq_true, text]
  | string literal =>
    obtain ⟨hopens, hreads, hcloses⟩ := h
    obtain rfl : kind = .string := (Option.some.inj hk).symm
    obtain ⟨rest, hrest⟩ : ∃ rest, literal.quote :: rest =
        Literal.delimiter literal.quote literal.long ++ (Literal.written literal.body ++
          Literal.delimiter literal.quote literal.long ++ more) := by
      cases literal.long <;> exact ⟨_, rfl⟩
    have hfirst : Lexeme.first b tail = Lexeme.literal literal.mark literal.quote rest := by
      refine Lexeme.first_eq_literal hopens.isMark hopens.isQuote ?_
      rw [heq, hrest]
      simp [text, Literal.text]
    rw [hfirst, Lexeme.literal_eq hopens hrest, Literal.cut_written hopens.isQuote hreads hcloses]
    simp [text, Literal.text]
  | op c =>
    obtain ⟨-, -, hquote, hname⟩ := h
    obtain rfl : kind = .op := (Option.some.inj hk).symm
    obtain ⟨rfl, rfl⟩ : b = c ∧ tail = more := List.cons.inj heq
    have hstart : ¬ isNameStart b := fun h => hname (isNameByte_of_isNameStart h)
    have hdigit : ¬ Byte.isDigit b := fun h => hname (isNameByte_of_isDigit h)
    simp only [Lexeme.first, hquote, hstart, hdigit, if_false, Bool.false_eq_true, text]

end Element

/-- What a lexeme says about the text it was read from. -/
def Lexeme.Stands : Lexeme → Bytes → Prop
  | token kind text more, s =>
    ∃ e : Element, e.kind? = some kind ∧ e.text = text ∧ e.Fits more ∧ s = text ++ more
  | brokenLiteral, s =>
    ∃ mark q after, Literal.Opens mark q false after ∧
      s = mark ++ Literal.delimiter q false ++ after ∧ Literal.cut q false after = .broken
  | openLiteral long, s =>
    ∃ mark q after, Literal.Opens mark q long after ∧
      s = mark ++ Literal.delimiter q long ++ after ∧ Literal.cut q long after = .exhausted

/-- A quote, or a mark and a quote, starts a literal. -/
theorem Lexeme.literal_stands {mark : Bytes} {q : UInt8}
    (hm : mark = [] ∨ isLiteralMark mark) (hq : isQuote q) (rest : Bytes) :
    (Lexeme.literal mark q rest).Stands (mark ++ q :: rest) := by
  obtain ⟨long, after, hrest, hopens⟩ := Literal.exists_opens hm hq rest
  rw [Lexeme.literal_eq hopens hrest, hrest, ← List.append_assoc]
  cases hcut : Literal.cut q long after with
  | closed text more =>
    obtain ⟨body, hreads, hcloses, rfl, rfl⟩ := Literal.exists_of_cut_closed hq hcut
    refine ⟨.string ⟨mark, q, long, body⟩, rfl, ?_, ⟨hopens, hreads, hcloses⟩, ?_⟩
    · simp [Element.text, Literal.text]
    · simp
  | broken =>
    obtain rfl := Literal.long_eq_false_of_cut_broken hcut
    exact ⟨mark, q, after, hopens, rfl, hcut⟩
  | exhausted => exact ⟨mark, q, after, hopens, rfl, hcut⟩

/-- **Soundness of reading.** At a byte that neither blanks nor comments start with, either a
token is read, and an element of its kind stands there, or a literal starts that no quotes
close. -/
theorem Lexeme.first_stands {b : UInt8} {tail : Bytes} (hblank : ¬ isBlank b)
    (hhash : b ≠ Byte.hash) : (Lexeme.first b tail).Stands (b :: tail) := by
  have hrun := maximalRun_takeWhile (b :: tail)
  have hsplit : b :: tail = (b :: tail).takeWhile isNameByte ++ (b :: tail).dropWhile isNameByte :=
    List.takeWhile_append_dropWhile.symm
  by_cases hquote : isQuote b
  · rw [Lexeme.first_eq_literal (.inl rfl) hquote rfl]
    exact Lexeme.literal_stands (.inl rfl) hquote tail
  by_cases hstart : isNameStart b
  · have hhead : ((b :: tail).takeWhile isNameByte).head? = some b := by
      simp [isNameByte_of_isNameStart hstart]
    generalize (b :: tail).takeWhile isNameByte = word at hrun hsplit hhead
    generalize (b :: tail).dropWhile isNameByte = after at hrun hsplit
    by_cases hmark : isLiteralMark word ∧ ∃ q ∈ after.head?, isQuote q
    · obtain ⟨hmark, q, hq, hquote⟩ := hmark
      obtain ⟨rest, rfl⟩ := List.head?_eq_some_iff.mp hq
      rw [Lexeme.first_eq_literal (.inr hmark) hquote hsplit, hsplit]
      exact Lexeme.literal_stands (.inr hmark) hquote rest
    · have hfits : (Element.name word).Fits after := ⟨hrun, ⟨b, hhead, hstart⟩, hmark⟩
      rw [Element.first_eq_of_fits hfits rfl hsplit, hsplit]
      exact ⟨_, rfl, rfl, hfits, rfl⟩
  by_cases hdigit : Byte.isDigit b
  · have hhead : ((b :: tail).takeWhile isNameByte).head? = some b := by
      simp [isNameByte_of_isDigit hdigit]
    generalize (b :: tail).takeWhile isNameByte = word at hrun hsplit hhead
    generalize (b :: tail).dropWhile isNameByte = after at hrun hsplit
    have hfits : (Element.number word).Fits after := ⟨hrun, b, hhead, hdigit⟩
    rw [Element.first_eq_of_fits hfits rfl hsplit, hsplit]
    exact ⟨_, rfl, rfl, hfits, rfl⟩
  · have hfits : (Element.op b).Fits tail := by
      refine ⟨hblank, hhash, hquote, ?_⟩
      simp [isNameByte, hstart, hdigit]
    have hfirst : Lexeme.first b tail = .token .op [b] tail :=
      Element.first_eq_of_fits hfits rfl rfl
    rw [hfirst]
    exact ⟨_, rfl, rfl, hfits, rfl⟩

/-! ### At most one element -/

/-- The letters before a literal end where its quotes begin. -/
theorem Literal.Opens.maximalRun {mark : Bytes} {q : UInt8} {long : Bool} {after : Bytes}
    (h : Literal.Opens mark q long after) (rest : Bytes) : MaximalRun mark (q :: rest) := by
  refine ⟨fun b hb => ?_, by simpa using not_isNameByte_of_mark (.inr (.inr h.isQuote))⟩
  rcases h.isMark with rfl | hm
  · simp at hb
  · exact isNameByte_of_isNameStart ((isNameStart_of_isLiteralMark hm).2 b hb)

/-- A literal starts with a byte that neither blanks nor comments start with. -/
theorem Literal.Opens.head_not_blank {mark : Bytes} {q b : UInt8} {long : Bool}
    {after rest tail : Bytes} (h : Literal.Opens mark q long after)
    (heq : b :: tail = mark ++ q :: rest) : ¬ (isBlank b ∨ b = Byte.hash) := by
  intro hb
  rcases mark with - | ⟨c, mark⟩
  · obtain rfl : b = q := (List.cons.inj heq).1
    exact not_isQuote_of_blank hb h.isQuote
  · obtain rfl : b = c := (List.cons.inj heq).1
    exact not_isNameByte_of_mark (hb.imp id .inl) ((h.maximalRun rest).inside b (by simp))

/-- The quotes that open a literal tell whether it is long. -/
theorem Literal.Opens.delimiter_unique {mark mark' : Bytes} {q q' : UInt8} {long long' : Bool}
    {after after' : Bytes} (h : Literal.Opens mark q long after)
    (h' : Literal.Opens mark' q' long' after')
    (heq : Literal.delimiter q long ++ after = Literal.delimiter q' long' ++ after') :
    q = q' ∧ long = long' ∧ after = after' := by
  cases long <;> cases long' <;>
    simp only [Literal.delimiter, if_true, if_false, Bool.false_eq_true, List.cons_append,
      List.nil_append, List.cons.injEq] at heq
  · exact ⟨heq.1, rfl, heq.2⟩
  · refine absurd ?_ (h.tripled rfl)
    rw [heq.1, heq.2]
    exact ⟨after', rfl⟩
  · refine absurd ?_ (h'.tripled rfl)
    rw [← heq.1, ← heq.2]
    exact ⟨after, rfl⟩
  · exact ⟨heq.1, rfl, heq.2.2.2⟩

/-- What opens a literal can be read off the text in one way only. -/
theorem Literal.Opens.unique {mark mark' : Bytes} {q q' : UInt8} {long long' : Bool}
    {after after' : Bytes} (h : Literal.Opens mark q long after)
    (h' : Literal.Opens mark' q' long' after')
    (heq : mark ++ Literal.delimiter q long ++ after =
      mark' ++ Literal.delimiter q' long' ++ after') :
    mark = mark' ∧ q = q' ∧ long = long' ∧ after = after' := by
  obtain ⟨rest, hrest⟩ : ∃ rest, Literal.delimiter q long ++ after = q :: rest := by
    cases long <;> exact ⟨_, rfl⟩
  obtain ⟨rest', hrest'⟩ : ∃ rest', Literal.delimiter q' long' ++ after' = q' :: rest' := by
    cases long' <;> exact ⟨_, rfl⟩
  rw [List.append_assoc, List.append_assoc] at heq
  have hmark : mark = mark' := by
    rw [← (h.maximalRun rest).takeWhile_eq, ← (h'.maximalRun rest').takeWhile_eq, ← hrest,
      ← hrest', heq]
  subst hmark
  rw [List.append_cancel_left_eq] at heq
  exact ⟨rfl, h.delimiter_unique h' heq⟩

/-- Two literals with the same bytes are the same. -/
theorem Literal.eq_of_text_eq {l l' : Literal} {more : Bytes} (h : l.Fits more)
    (h' : l'.Fits more) (heq : l.text = l'.text) : l = l' := by
  obtain ⟨mark, q, long, body⟩ := l
  obtain ⟨mark', q', long', body'⟩ := l'
  obtain ⟨hopens, hreads, -⟩ := h
  obtain ⟨hopens', hreads', -⟩ := h'
  dsimp only at hopens hopens' hreads hreads'
  have hall : mark ++ delimiter q long ++ (written body ++ delimiter q long ++ more) =
      mark' ++ delimiter q' long' ++ (written body' ++ delimiter q' long' ++ more) := by
    simpa [Literal.text] using congrArg (· ++ more) heq
  obtain ⟨rfl, rfl, rfl, hbody⟩ := hopens.unique hopens' hall
  rw [List.append_cancel_right_eq, List.append_cancel_right_eq] at hbody
  rw [written_injective hreads hreads' hbody]

namespace Element

/-- Blanks and comments start with bytes that no token starts with. -/
theorem kind?_eq_none_iff {e : Element} {more tail : Bytes} {b : UInt8} (h : e.Fits more)
    (heq : b :: tail = e.text ++ more) :
    e.kind? = none ↔ isBlank b ∨ b = Byte.hash := by
  have hname : ∀ {word rest : Bytes} {c : UInt8}, b :: tail = word ++ rest → c ∈ word.head? →
      isNameByte c → ¬ (isBlank b ∨ b = Byte.hash) := by
    intro word rest c heq hc hcname hb
    obtain ⟨word, rfl⟩ := List.head?_eq_some_iff.mp hc
    obtain rfl := (List.cons.inj heq).1
    refine not_isNameByte_of_mark ?_ hcname
    exact hb.imp id .inl
  cases e with
  | blank c =>
    obtain rfl : b = c := (List.cons.inj heq).1
    exact iff_of_true rfl (.inl h)
  | comment body =>
    obtain rfl : b = Byte.hash := (List.cons.inj heq).1
    exact iff_of_true rfl (.inr rfl)
  | name word =>
    obtain ⟨-, ⟨c, hc, hstart⟩, -⟩ := h
    exact iff_of_false (by simp [kind?]) (hname heq hc (isNameByte_of_isNameStart hstart))
  | number word =>
    obtain ⟨-, c, hc, hdigit⟩ := h
    exact iff_of_false (by simp [kind?]) (hname heq hc (isNameByte_of_isDigit hdigit))
  | string literal =>
    refine iff_of_false (by simp [kind?]) ?_
    obtain ⟨rest, hrest⟩ : ∃ rest, Literal.delimiter literal.quote literal.long ++
        (Literal.written literal.body ++ (Literal.delimiter literal.quote literal.long ++ more)) =
          literal.quote :: rest := by
      cases literal.long <;> exact ⟨_, rfl⟩
    rw [text, Literal.text, List.append_assoc, List.append_assoc, List.append_assoc, hrest] at heq
    exact h.opens.head_not_blank heq
  | op c =>
    obtain rfl : b = c := (List.cons.inj heq).1
    exact iff_of_false (by simp [kind?]) (not_or.mpr ⟨h.1, h.2.1⟩)

/-- Two tokens of one kind and the same bytes are the same element. -/
theorem eq_of_text_eq {e e' : Element} {kind : Kind} {more : Bytes} (h : e.Fits more)
    (h' : e'.Fits more) (hk : e.kind? = some kind) (hk' : e'.kind? = some kind)
    (heq : e.text = e'.text) : e = e' := by
  cases e <;> simp only [kind?, Option.some.injEq, reduceCtorEq] at hk <;> subst hk <;>
    cases e' <;> simp only [kind?, Option.some.injEq, reduceCtorEq] at hk'
  case name.name => exact congrArg _ heq
  case number.number => exact congrArg _ heq
  case string.string => exact congrArg _ (Literal.eq_of_text_eq h h' heq)
  case op.op => exact congrArg _ (List.cons.inj heq).1

/-- A comment reaches up to the end of its line. -/
theorem comment_unique {body body' more more' : Bytes} (h : (comment body).Fits more)
    (h' : (comment body').Fits more') (heq : body ++ more = body' ++ more') :
    body = body' ∧ more = more' := by
  have htake : ∀ {body more : Bytes}, (comment body).Fits more →
      (body ++ more).takeWhile (· ≠ Byte.lineFeed) = body := by
    rintro body more ⟨hbody, hmore⟩
    have hall : ∀ b ∈ body, decide (b ≠ Byte.lineFeed) = true := fun b hb =>
      decide_eq_true fun hlf => hbody (hlf ▸ hb)
    rw [List.takeWhile_append_of_pos hall]
    cases more with
    | nil => simp
    | cons b more => simp [hmore b rfl]
  obtain rfl : body = body' := by rw [← htake h, heq, htake h']
  exact ⟨rfl, List.append_cancel_left heq⟩

/-- **A text begins with at most one element.** -/
theorem fits_unique {e e' : Element} {more more' : Bytes} (h : e.Fits more)
    (h' : e'.Fits more') (heq : e.text ++ more = e'.text ++ more') : e = e' ∧ more = more' := by
  obtain ⟨b, tail, hcons⟩ : ∃ b tail, e.text ++ more = b :: tail :=
    List.exists_cons_of_ne_nil (by simp [text_ne_nil h])
  have hkind := kind?_eq_none_iff h hcons.symm
  have hkind' := kind?_eq_none_iff h' (hcons.symm.trans heq)
  cases hk : e.kind? with
  | none =>
    have hk' : e'.kind? = none := hkind'.mpr (hkind.mp hk)
    have hhash : ¬ isBlank Byte.hash := by decide
    cases e <;> simp only [kind?, reduceCtorEq] at hk <;>
      cases e' <;> simp only [kind?, reduceCtorEq] at hk'
    case blank.blank => simpa [text] using heq
    case blank.comment => exact absurd h ((List.cons.inj heq).1 ▸ hhash)
    case comment.blank => exact absurd h' ((List.cons.inj heq).1 ▸ hhash)
    case comment.comment =>
      obtain ⟨rfl, rfl⟩ := comment_unique h h' (List.cons.inj heq).2
      exact ⟨rfl, rfl⟩
  | some kind =>
    obtain ⟨kind', hk'⟩ : ∃ kind', e'.kind? = some kind' := by
      rw [← Option.ne_none_iff_exists', Ne, hkind', ← hkind, hk]
      simp
    have hread := first_eq_of_fits h hk hcons.symm
    rw [first_eq_of_fits h' hk' (hcons.symm.trans heq)] at hread
    simp only [Lexeme.token.injEq] at hread
    obtain ⟨rfl, htext, rfl⟩ := hread
    exact ⟨eq_of_text_eq h h' hk hk' htext.symm, rfl⟩

end Element

end DocHarvest.Source
