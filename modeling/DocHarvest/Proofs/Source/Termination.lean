import DocHarvest.Proofs.Source.Scans

/-!
# Scanning Ends and Stays Ended

A scan that hands out a token takes the token's bytes away from what is left to read. A scan that
hands out none is the last one that matters: it leaves the scanner as every later scan finds and
leaves it. The number of bytes left therefore bounds the number of tokens, and what the last scan
gives is given by all scans after it.

## Main definitions

* `IsLast` — the results that end a scan: the end of the file, or an error.
* `Scanner.Settled` — scanning again gives the same and changes nothing.

## Main results

* `Scanner.next_takes_or_settles` — what one scan takes away, or where it stops.
* `Scanner.exists_settled` — some scan stops, after at most as many others as there are bytes.
* `result_ends` — scanning a source ends and stays ended.
-/

namespace DocHarvest.Source

/-- The results of scans that hand out no token: the end of the file, and errors. -/
def IsLast : Except ScanError Token → Prop
  | .ok token => token.kind = .endOfFile ∧ token.text = []
  | .error _ => True

/-- A scan that halts gives a last result. -/
theorem Halts.isLast {ending : Ending} {depth line : Nat} {rest : Bytes}
    {outcome : Except ScanError Token} (h : Halts ending depth line rest outcome) :
    IsLast outcome := by
  cases h with
  | finished => exact ⟨rfl, rfl⟩
  | openBracket | unreadable | lostWord | broken | interrupted => trivial

/-- A token of the end of the file is told by its line alone. -/
theorem IsLast.cases {outcome : Except ScanError Token} (h : IsLast outcome) :
    (∃ line, outcome = .ok ⟨.endOfFile, [], line⟩) ∨ ∃ error, outcome = .error error := by
  cases outcome with
  | error error => exact .inr ⟨error, rfl⟩
  | ok token =>
    obtain ⟨kind, text, line⟩ := token
    obtain ⟨rfl, rfl⟩ : kind = .endOfFile ∧ text = [] := h
    exact .inl ⟨line, rfl⟩

namespace Scanner

variable {ending : Ending} {s : Scanner}

/-- The next scan gives a last result, and scanning again gives the same and changes nothing. -/
structure Settled (ending : Ending) (s : Scanner) : Prop where
  isLast : IsLast (s.next ending).1
  again : (s.next ending).2.next ending = s.next ending

/-- **What one scan does to what is left to read.** It hands out a token and takes the bytes of it
away, or it is the last one that matters. -/
theorem next_takes_or_settles (ending : Ending) (h : s.error? = none) :
    (∃ token, (s.next ending).1 = .ok token ∧ token.kind ≠ .endOfFile ∧ token.text ≠ [] ∧
      (s.next ending).2.error? = none ∧
      token.text.length + (s.next ending).2.rest.length ≤ s.rest.length) ∨
    s.Settled ending := by
  obtain ⟨gap, line, rest, hgap, hnext⟩ := s.next_cases ending h
  obtain ⟨e, kind, more, hkind, hfits, hrest, hnext⟩ | ⟨outcome, hhalts, hnext⟩ := hnext
  · left
    refine ⟨⟨kind, e.text, line⟩, by rw [hnext], ?_, Element.text_ne_nil hfits, by rw [hnext], ?_⟩
    · intro hend
      exact e.kind?_ne_endOfFile (hend ▸ hkind)
    · rw [hnext, hgap.cuts.eq_append, hrest]
      simp only [List.length_append]
      omega
  · right
    constructor
    · rw [hnext]
      exact hhalts.isLast
    · rw [hnext]
      exact hhalts.next_again

/-! ### Repeated scans -/

/-- The scanner after one scan more. -/
theorem after_succ (ending : Ending) (n : Nat) (s : Scanner) :
    s.after ending (n + 1) = ((s.after ending n).next ending).2 := by
  induction n generalizing s with
  | zero => rfl
  | succ n ih => exact ih (s.next ending).2

/-- A settled scanner gives the same in every scan, and after the first it does not change. -/
theorem Settled.after (h : s.Settled ending) (n : Nat) :
    (s.after ending n).next ending = s.next ending ∧
      s.after ending (n + 1) = (s.next ending).2 := by
  induction n with
  | zero => exact ⟨rfl, rfl⟩
  | succ n ih =>
    have hnext : (s.after ending (n + 1)).next ending = s.next ending := by
      rw [ih.2, h.again]
    refine ⟨hnext, ?_⟩
    rw [after_succ, hnext]

/-- **Some scan stops.** Every scan before it hands out a token and takes at least one byte away,
so there are at most as many of them as bytes. -/
theorem exists_settled (ending : Ending) (bound : Nat) (h : s.error? = none)
    (hbound : s.rest.length ≤ bound) :
    ∃ n ≤ s.rest.length,
      (∀ m < n, ∃ token, ((s.after ending m).next ending).1 = .ok token ∧
        token.kind ≠ .endOfFile ∧ token.text ≠ []) ∧
      (s.after ending n).Settled ending := by
  induction bound generalizing s with
  | zero =>
    obtain ⟨token, -, -, htext, -, hlength⟩ | hsettled := next_takes_or_settles ending h
    · have hpos := List.length_pos_iff.mpr htext
      omega
    · exact ⟨0, Nat.zero_le _, fun m hm => absurd hm (Nat.not_lt_zero m), hsettled⟩
  | succ bound ih =>
    obtain ⟨token, htoken, hkind, htext, herror, hlength⟩ | hsettled :=
      next_takes_or_settles ending h
    · have hpos := List.length_pos_iff.mpr htext
      obtain ⟨n, hn, htokens, hsettled⟩ := ih herror (by omega)
      refine ⟨n + 1, by omega, fun m hm => ?_, hsettled⟩
      cases m with
      | zero => exact ⟨token, htoken, hkind, htext⟩
      | succ m => exact htokens m (Nat.lt_of_succ_lt_succ hm)
    · exact ⟨0, Nat.zero_le _, fun m hm => absurd hm (Nat.not_lt_zero m), hsettled⟩

/-- The scans after a number of others are those of the scanner that these leave. -/
theorem after_add (ending : Ending) (n m : Nat) (s : Scanner) :
    s.after ending (n + m) = (s.after ending n).after ending m := by
  induction m with
  | zero => rfl
  | succ m ih => rw [← Nat.add_assoc, after_succ, ih, after_succ]

/-- A scan that gives an error leaves it with the scanner. -/
theorem error?_next {error : ScanError} (h : (s.next ending).1 = .error error) :
    (s.next ending).2.error? = some error := by
  cases hs : s.error? with
  | some earlier =>
    rw [next_of_failed ending hs] at h ⊢
    rw [hs, Except.error.inj h]
  | none =>
    obtain ⟨gap, line, rest, -, hnext⟩ := s.next_cases ending hs
    obtain ⟨e, kind, more, -, -, -, hnext⟩ | ⟨outcome, -, hnext⟩ := hnext
    · rw [hnext] at h
      cases h
    · rw [hnext] at h ⊢
      dsimp only at h ⊢
      rw [h, failure?]

end Scanner

/-- **Scanning ends and stays ended.** At most as many scans as the source has bytes hand out a
token, and none of these tokens is empty. The scan after them gives the end of the file or an
error, and every later scan gives the same, with the same line. After an error this is so whatever
bytes are left unread. -/
theorem result_ends (source : Source) :
    ∃ n ≤ source.bytes.length,
      (∀ m < n, ∃ token, source.result m = .ok token ∧ token.kind ≠ .endOfFile ∧
        token.text ≠ []) ∧
      ((∃ line, source.result n = .ok ⟨.endOfFile, [], line⟩) ∨
        ∃ error, source.result n = .error error) ∧
      (∀ m, n ≤ m → source.result m = source.result n) ∧
      (∀ error, source.result n = .error error → ∀ m, n < m → ∀ unread,
        ({ source.scanner.after source.ending m with rest := unread }.next source.ending).1 =
          .error error) := by
  obtain ⟨n, hn, htokens, hsettled⟩ :=
    Scanner.exists_settled source.ending source.bytes.length (s := source.scanner) rfl
      (Nat.le_refl _)
  refine ⟨n, hn, htokens, hsettled.isLast.cases, ?_, ?_⟩
  · intro m hm
    obtain ⟨k, rfl⟩ := Nat.exists_eq_add_of_le hm
    rw [result, Scanner.after_add, (hsettled.after k).1, result]
  · intro error herror m hm unread
    obtain ⟨k, rfl⟩ := Nat.exists_eq_add_of_lt hm
    have hafter := (hsettled.after k).2
    rw [← Scanner.after_add, ← Nat.add_assoc] at hafter
    have hfailed : (source.scanner.after source.ending (n + k + 1)).error? = some error := by
      rw [hafter]
      exact Scanner.error?_next herror
    have hnext := Scanner.next_of_failed source.ending
      (s := { source.scanner.after source.ending (n + k + 1) with rest := unread }) hfailed
    exact congrArg Prod.fst hnext

/-- A literal that the end of its line breaks: the line after it is never read. -/
example :
    let source : Source := ⟨utf8 "a.py", utf8 "x 'y\nz", .complete⟩
    source.result 0 = .ok ⟨.name, utf8 "x", 1⟩ ∧
      source.result 1 = .error (.malformed .openLine 1) ∧
      source.result 5 = .error (.malformed .openLine 1) :=
  ⟨rfl, rfl, rfl⟩

end DocHarvest.Source
