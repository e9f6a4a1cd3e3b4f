import DocHarvest.Proofs.Source.Recognition
import Mathlib.Algebra.Order.Group.Int
import Mathlib.Data.List.Infix
import Mathlib.Order.Bounds.Basic

/-!
# Open Brackets

A scanner counts the brackets that are open, whatever their kinds, and its count never falls below
zero. The count is therefore no plain difference of openings and closings: a closing bracket that
closes nothing is forgotten, and what opens after it stays open. It is the largest surplus of
openings over closings that any suffix of the tokens has, the empty one included.

So a source that closes its literals is refused for an open bracket exactly when some suffix of its
tokens opens more brackets than it closes. Only operators count; brackets in literals and comments
do not.

## Main definitions

* `openings`, `closings`, `surplus` — the brackets that tokens open and close, and the difference.
* `openAfter` — the brackets left open after tokens, as a scanner counts them.
* `LiteralsClosed` — every literal of a source is closed.

## Main results

* `openAfter_isGreatest` — the count is the largest surplus of a suffix.
* `Scanner.depth_after` — the count that a scanner keeps.
* `scan_openBracket_iff` — the sources that are refused for an open bracket.
-/

namespace DocHarvest.Source

/-! ### Counting brackets -/

/-- Whether a token opens a bracket. -/
def Token.opens (token : Token) : Bool :=
  token.kind = .op && [utf8 "(", utf8 "[", utf8 "\x7b"].contains token.text

/-- Whether a token closes a bracket. -/
def Token.closes (token : Token) : Bool :=
  token.kind = .op && [utf8 ")", utf8 "]", utf8 "\x7d"].contains token.text

/-- The number of tokens that open a bracket. -/
def openings (tokens : List Token) : Nat :=
  tokens.countP Token.opens

/-- The number of tokens that close a bracket. -/
def closings (tokens : List Token) : Nat :=
  tokens.countP Token.closes

/-- How many more brackets tokens open than they close. -/
def surplus (tokens : List Token) : Int :=
  openings tokens - closings tokens

/-- The brackets left open after a token. -/
def Token.nest (depth : Nat) (token : Token) : Nat :=
  bracketDepth depth token.kind token.text

/-- The brackets left open after tokens. -/
def openAfter (tokens : List Token) : Nat :=
  tokens.foldl Token.nest 0

/-- One token opens a bracket, closes one or does neither. -/
theorem surplus_singleton (token : Token) :
    surplus [token] = (if token.opens then 1 else 0) - if token.closes then 1 else 0 := by
  simp only [surplus, openings, closings, List.countP_singleton]
  split <;> split <;> rfl

/-- Surpluses add up. -/
theorem surplus_append (tokens others : List Token) :
    surplus (tokens ++ others) = surplus tokens + surplus others := by
  simp only [surplus, openings, closings, List.countP_append]
  omega

/-- The surplus is positive when more brackets are opened than closed. -/
theorem surplus_pos_iff {tokens : List Token} :
    0 < surplus tokens ↔ closings tokens < openings tokens := by
  rw [surplus]
  omega

/-- Opening brackets raise the count, closing ones lower it. -/
theorem Token.nest_eq_ite (depth : Nat) (token : Token) :
    token.nest depth =
      if token.opens then depth + 1 else if token.closes then depth - 1 else depth := by
  by_cases hkind : token.kind = .op
  · simp [Token.nest, bracketDepth, Token.opens, Token.closes, hkind, or_assoc]
  · simp [Token.nest, bracketDepth, Token.opens, Token.closes, hkind]

/-- No token both opens and closes a bracket. -/
theorem Token.not_closes_of_opens {token : Token} (h : token.opens) : token.closes = false := by
  simp only [Token.opens, Token.closes, Bool.and_eq_true, List.contains_iff_mem] at h ⊢
  have hapart : ∀ text ∈ [utf8 "(", utf8 "[", utf8 "\x7b"],
      text ∉ [utf8 ")", utf8 "]", utf8 "\x7d"] := by decide
  simp [hapart token.text h.2]

/-- **One token moves the count by its surplus**, but never below zero. -/
theorem Token.nest_eq_max (depth : Nat) (token : Token) :
    (token.nest depth : Int) = max 0 (depth + surplus [token]) := by
  rw [Token.nest_eq_ite, surplus_singleton]
  by_cases hopens : token.opens
  · rw [if_pos hopens, if_pos hopens, if_neg (by simp [Token.not_closes_of_opens hopens])]
    omega
  · rw [if_neg hopens, if_neg hopens]
    split <;> omega

/-- One token more nests what was open before it. -/
theorem openAfter_append_singleton (tokens : List Token) (token : Token) :
    openAfter (tokens ++ [token]) = token.nest (openAfter tokens) := by
  rw [openAfter, List.foldl_append]
  rfl

/-- **The count is the largest surplus of a suffix.** One token more puts it at the end of every
suffix and adds the empty one, which keeps the count from falling below zero. -/
theorem openAfter_isGreatest (tokens : List Token) :
    IsGreatest (surplus '' {suffix | suffix <:+ tokens}) (openAfter tokens) := by
  induction tokens using List.reverseRecOn with
  | nil =>
    refine ⟨⟨[], List.suffix_rfl, rfl⟩, ?_⟩
    rintro _ ⟨suffix, hsuffix, rfl⟩
    rw [List.suffix_nil.mp hsuffix]
    exact Int.le_refl 0
  | append_singleton tokens token ih =>
    obtain ⟨⟨best, hbest, hsurplus⟩, hgreatest⟩ := ih
    rw [openAfter_append_singleton, Token.nest_eq_max]
    constructor
    · rcases Int.le_total 0 (openAfter tokens + surplus [token]) with hle | hle
      · refine ⟨best ++ [token], List.suffix_concat_iff.mpr (.inr ⟨best, rfl, hbest⟩), ?_⟩
        rw [surplus_append, hsurplus, max_eq_right hle]
      · exact ⟨[], List.nil_suffix, (max_eq_left hle).symm⟩
    · rintro _ ⟨suffix, hsuffix, rfl⟩
      rcases List.suffix_concat_iff.mp hsuffix with rfl | ⟨before, rfl, hbefore⟩
      · exact Int.le_max_left _ _
      · have hle := hgreatest ⟨before, hbefore, rfl⟩
        rw [surplus_append]
        omega

/-- Brackets are left open exactly when some suffix opens more than it closes. -/
theorem openAfter_pos_iff {tokens : List Token} :
    0 < openAfter tokens ↔
      ∃ suffix, suffix <:+ tokens ∧ closings suffix < openings suffix := by
  obtain ⟨⟨best, hbest, hsurplus⟩, hgreatest⟩ := openAfter_isGreatest tokens
  constructor
  · intro hpos
    refine ⟨best, hbest, surplus_pos_iff.mp ?_⟩
    omega
  · rintro ⟨suffix, hsuffix, hmore⟩
    have hpos := surplus_pos_iff.mpr hmore
    have hle := hgreatest ⟨suffix, hsuffix, rfl⟩
    omega

/-! ### Closing brackets that close nothing -/

/-- What stands before tokens closes none of the brackets that they leave open. -/
theorem openAfter_le_append (before after : List Token) :
    openAfter after ≤ openAfter (before ++ after) := by
  obtain ⟨⟨best, hbest, hsurplus⟩, -⟩ := openAfter_isGreatest after
  have hle := (openAfter_isGreatest (before ++ after)).2
    ⟨best, hbest.trans (List.suffix_append before after), rfl⟩
  omega

/-- A closing bracket where none is open changes nothing. -/
theorem openAfter_closing {before : List Token} {close : Token} (hnone : openAfter before = 0)
    (hcloses : close.closes) (after : List Token) :
    openAfter (before ++ close :: after) = openAfter (before ++ after) := by
  have hnest : close.nest 0 = 0 := by
    rw [Token.nest_eq_ite, if_neg, if_pos hcloses]
    intro hopens
    rw [Token.not_closes_of_opens hopens] at hcloses
    cases hcloses
  rw [openAfter] at hnone
  rw [openAfter, openAfter, List.foldl_append, List.foldl_append, List.foldl_cons, hnone, hnest]

/-! ### The count that a scanner keeps -/

/-- A scanner that has halted keeps its count. -/
theorem Halts.depth_after {ending : Ending} {depth line : Nat} {rest : Bytes} {s : Scanner}
    {outcome : Except ScanError Token} (h : Halts ending depth line rest outcome)
    (hnext : s.next ending = (outcome, ⟨rest, line, depth, failure? outcome⟩))
    (hdepth : s.depth = depth) (n : Nat) : (s.after ending n).depth = depth := by
  induction n generalizing s with
  | zero => exact hdepth
  | succ n ih =>
    rw [Scanner.after, hnext]
    exact ih h.next_again rfl

/-- **The count that a scanner keeps**: after a number of scans it is that of the tokens they
handed out. -/
theorem Scanner.depth_after (ending : Ending) (fuel : Nat) {s : Scanner} (h : s.error? = none)
    (hfuel : s.rest.length ≤ fuel) (n : Nat) :
    (s.after ending n).depth = ((scanFrom ending fuel s).1.take n).foldl Token.nest s.depth := by
  induction fuel generalizing s n with
  | zero =>
    obtain ⟨gap, line, rest, hgap, hnext⟩ := s.next_cases ending h
    rcases hnext with ⟨e, kind, more, -, hfits, hrest, -⟩ | ⟨outcome, hhalts, hnext⟩
    · have hlt := hgap.length_lt hrest hfits
      omega
    · rw [hhalts.depth_after hnext rfl, hhalts.scanFrom_eq hnext, List.take_nil, List.foldl_nil]
  | succ fuel ih =>
    obtain ⟨gap, line, rest, hgap, hnext⟩ := s.next_cases ending h
    rcases hnext with ⟨e, kind, more, hkind, hfits, hrest, hnext⟩ | ⟨outcome, hhalts, hnext⟩
    · have hlt := hgap.length_lt hrest hfits
      rw [scanFrom_token hkind hnext]
      cases n with
      | zero => rfl
      | succ n =>
        rw [Scanner.after, hnext, List.take_succ_cons, List.foldl_cons, Token.nest,
          bracketDepth_eq_nest hkind]
        exact ih rfl (by dsimp only; omega) n
    · rw [hhalts.depth_after hnext rfl, hhalts.scanFrom_eq hnext, List.take_nil, List.foldl_nil]

/-! ### Sources that leave brackets open -/

/-- **Every literal of a text is closed**: wherever it has been cut into elements, no literal
starts that no quotes close. -/
def LiteralsClosed (s : Bytes) : Prop :=
  ∀ es rest what, Cuts s es rest → ¬ Unclosed rest what

/-- All literals of a text are closed exactly when it splits into elements. -/
theorem literalsClosed_iff {s : Bytes} : LiteralsClosed s ↔ ∃ es, Splits s es := by
  constructor
  · intro hclosed
    rcases scan_cases [] s with ⟨es, hsplits, -⟩ | ⟨es, rest, what, hcuts, hopen, -⟩
    · exact ⟨es, hsplits⟩
    · exact absurd hopen (hclosed es rest what hcuts)
  · rintro ⟨es, hsplits⟩ es' rest what hcuts hopen
    exact hopen.not_splits hcuts hsplits

/-- Whether scanning ended in a literal that nothing closes. -/
def endsInLiteral : Except ScanError Token → Bool
  | .error (.malformed .openText _) => true
  | .error (.malformed .openLine _) => true
  | _ => false

/-- Scanning a text tells whether its literals are closed. -/
theorem literalsClosed_iff_scan {s : Bytes} :
    LiteralsClosed s ↔ endsInLiteral (scan ⟨[], s, .complete⟩).2 = false := by
  rcases scan_cases [] s with ⟨es, hsplits, hscan⟩ | ⟨es, rest, what, hcuts, hopen, hscan⟩
  · refine iff_of_true (literalsClosed_iff.mpr ⟨es, hsplits⟩) ?_
    rw [hscan, closingResult]
    split <;> rfl
  · refine iff_of_false (fun hclosed => hclosed es rest what hcuts hopen) ?_
    obtain ⟨mark, q, long, after, -, -, -, rfl⟩ := hopen
    rw [hscan]
    cases long <;> simp [endsInLiteral]

instance (s : Bytes) : Decidable (LiteralsClosed s) :=
  decidable_of_iff _ literalsClosed_iff_scan.symm

/-- The tokens among elements leave the brackets of the elements open. -/
theorem foldl_nest_placed (es : List Element) (line depth : Nat) :
    (placed line es).foldl Token.nest depth = es.foldl Element.nest depth := by
  induction es generalizing line depth with
  | nil => rfl
  | cons e es ih =>
    cases hkind : e.kind? with
    | none =>
      have hnest : e.nest depth = depth := by
        cases e with
        | blank | comment => rfl
        | name | number | string | op => cases hkind
      rw [placed, hkind, List.foldl_cons, hnest]
      exact ih _ _
    | some kind =>
      rw [placed, hkind, List.foldl_cons, List.foldl_cons, Token.nest, bracketDepth_eq_nest hkind]
      exact ih _ _

/-- The brackets that are open after some elements do not depend on their lines. -/
theorem openAfter_placed (line : Nat) (es : List Element) :
    openAfter (placed line es) = nesting es :=
  foldl_nest_placed es line 0

/-- Whether an element is an operator. -/
def Element.isOp : Element → Bool
  | op _ => true
  | _ => false

/-- Only operators open and close brackets. -/
theorem nesting_filter_isOp (es : List Element) :
    nesting (es.filter Element.isOp) = nesting es := by
  have hnest : (fun depth e => if Element.isOp e = true then e.nest depth else depth) =
      Element.nest := by
    funext depth e
    cases e <;> rfl
  rw [nesting, List.foldl_filter, hnest, nesting]

/-- **The sources that are refused for an open bracket.** Let every literal of a source be closed.
Scanning it fails at its end for an open bracket exactly when some suffix of its tokens opens more
brackets than it closes, and otherwise reaches the end of the file. What decides is the count that
the scanner keeps: after any number of scans it is the count of the tokens they handed out, and for
any tokens the count is the largest surplus of a suffix. The count is that of the operators alone,
whatever stands in literals and comments. A closing bracket where none is open changes nothing that
comes later, and nothing before some tokens closes what they leave open. -/
theorem scan_openBracket_iff (name s : Bytes) (hclosed : LiteralsClosed s) :
    let source : Source := ⟨name, s, .complete⟩
    let tokens := source.scan.1
    (source.scan.2 = .error (.malformed .openBracket (1 + Bytes.lineFeeds s)) ↔
      ∃ suffix, suffix <:+ tokens ∧ closings suffix < openings suffix) ∧
    ((¬ ∃ suffix, suffix <:+ tokens ∧ closings suffix < openings suffix) →
      source.scan.2 = .ok ⟨.endOfFile, [], 1 + Bytes.lineFeeds s⟩) ∧
    Malformation.openBracket.message = "EOF in multi-line statement" ∧
    (∀ n, (source.scanner.after .complete n).depth = openAfter (tokens.take n)) ∧
    (∀ ts : List Token, IsGreatest (surplus '' {suffix | suffix <:+ ts}) (openAfter ts)) ∧
    (∃ es, Splits s es ∧ tokens = placed 1 es ∧
      openAfter tokens = nesting (es.filter Element.isOp)) ∧
    (∀ before close after, openAfter before = 0 → Token.closes close →
      openAfter (before ++ close :: after) = openAfter (before ++ after)) ∧
    (∀ before after, openAfter after ≤ openAfter (before ++ after)) := by
  intro source tokens
  obtain ⟨es, hsplits⟩ := literalsClosed_iff.mp hclosed
  have hscan : source.scan = (placed 1 es, closingResult s es) := scan_eq_of_splits name hsplits
  have htokens : tokens = placed 1 es := congrArg Prod.fst hscan
  have hnesting : openAfter tokens = nesting es := by rw [htokens, openAfter_placed]
  rw [← openAfter_pos_iff, hnesting, hscan, closingResult]
  refine ⟨?_, ?_, rfl, ?_, openAfter_isGreatest, ⟨es, hsplits, htokens, ?_⟩, ?_,
    openAfter_le_append⟩
  · by_cases hnone : nesting es = 0
    · simp [hnone]
    · simp [hnone, Nat.pos_iff_ne_zero]
  · intro hnone
    rw [if_pos (Nat.eq_zero_of_not_pos hnone)]
  · exact Scanner.depth_after .complete s.length (s := source.scanner) rfl (Nat.le_refl _)
  · exact (nesting_filter_isOp es).symm
  · intro before close after hnone hcloses
    exact openAfter_closing hnone hcloses after

/-- Two closing brackets that close nothing, brackets in a literal and in a comment, and a bracket
opened after them. -/
theorem scan_openBracket_iff_awkward :
    let s := utf8 "\x7d ) f(\"(\" # )\n ] \x7bx"
    LiteralsClosed s ∧
      (scan ⟨utf8 "a.py", s, .complete⟩).2 = .error (.malformed .openBracket 2) ∧
      ∃ suffix, suffix <:+ (scan ⟨utf8 "a.py", s, .complete⟩).1 ∧
        closings suffix < openings suffix := by
  intro s
  have hclosed : LiteralsClosed s := by decide
  have hsuffix := (scan_openBracket_iff (utf8 "a.py") s hclosed).1
  exact ⟨hclosed, rfl, hsuffix.mp rfl⟩

end DocHarvest.Source
