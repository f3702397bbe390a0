import EventPolicy.Proofs.Wildcard.Expression
import Mathlib.Data.List.Forall2

/-!
What a pattern matches. A text matches when it can be cut into consecutive pieces,
one for each character of the pattern: any piece for a star, a single character for
a question mark, and for every other character that character. The matcher, which
goes by the tokens in the expression of the pattern, finds such a cut whenever there
is one, and so does a matcher that goes by the pattern itself.
-/

namespace EventPolicy.Wildcard

/-- The pieces of a text that a symbol stands for. A break of lines is a
character like any other. -/
def Symbol.Fits : Symbol → List Char → Prop
  | .run, _ => True
  | .single, piece => ∃ c, piece = [c]
  | .literal c, piece => piece = [c]

/-- A text can be cut into consecutive pieces, one that fits for each symbol. -/
def Cut (symbols : List Symbol) (text : List Char) : Prop :=
  ∃ pieces, List.Forall₂ Symbol.Fits symbols pieces ∧ pieces.flatten = text

theorem cut_nil_iff {text : List Char} : Cut [] text ↔ text = [] := by
  simp [Cut, eq_comm]

theorem cut_cons_iff {symbol : Symbol} {symbols : List Symbol} {text : List Char} :
    Cut (symbol :: symbols) text ↔
      ∃ piece rest, text = piece ++ rest ∧ symbol.Fits piece ∧ Cut symbols rest := by
  constructor
  · rintro ⟨pieces, hpieces, rfl⟩
    obtain ⟨piece, more, hfits, hmore, rfl⟩ := List.forall₂_cons_left_iff.mp hpieces
    exact ⟨piece, more.flatten, rfl, hfits, more, hmore, rfl⟩
  · rintro ⟨piece, rest, rfl, hfits, pieces, hpieces, rfl⟩
    exact ⟨piece :: pieces, .cons hfits hpieces, rfl⟩

theorem cut_run_iff {symbols : List Symbol} {text : List Char} :
    Cut (.run :: symbols) text ↔ ∃ before after, text = before ++ after ∧ Cut symbols after := by
  simp [cut_cons_iff, Symbol.Fits]

theorem cut_single_iff {symbols : List Symbol} {text : List Char} :
    Cut (.single :: symbols) text ↔ ∃ c rest, text = c :: rest ∧ Cut symbols rest := by
  rw [cut_cons_iff]
  constructor
  · rintro ⟨_, rest, rfl, ⟨c, rfl⟩, hrest⟩
    exact ⟨c, rest, rfl, hrest⟩
  · rintro ⟨c, rest, rfl, hrest⟩
    exact ⟨[c], rest, rfl, ⟨c, rfl⟩, hrest⟩

theorem cut_literal_iff {c : Char} {symbols : List Symbol} {text : List Char} :
    Cut (.literal c :: symbols) text ↔ ∃ rest, text = c :: rest ∧ Cut symbols rest := by
  simp [cut_cons_iff, Symbol.Fits]

/-- The matcher tries for a run each end of the text that the tokens behind it could
have to match, so it misses no cut. -/
theorem matchesTokens_iff (tokens : List Token) (text : List Char) :
    matchesTokens tokens text = true ↔ Cut (tokens.map Token.symbol) text := by
  induction tokens generalizing text with
  | nil => simp [matchesTokens, cut_nil_iff]
  | cons token tokens ih =>
    rw [List.map_cons]
    cases token with
    | run => simp only [matchesTokens, Token.symbol, anyEnd_iff, ih, cut_run_iff]
    | single =>
      rw [Token.symbol, cut_single_iff]
      cases text <;> simp [matchesTokens, ih]
    | escaped c | plain c =>
      rw [Token.symbol, cut_literal_iff]
      cases text with
      | nil => simp [matchesTokens]
      | cons d rest => simp [matchesTokens, ih, @eq_comm _ c d]

/-- A match is one of the tokens that the expression of the pattern has. -/
theorem isMatch_eq_matchesTokens (pattern text : String) :
    isMatch pattern text = matchesTokens (pattern.toList.map Token.ofChar) text.toList := by
  rw [isMatch, matchesWhole, Token.read?_eq_some_iff.mpr (Token.spells_regex pattern)]

/-- Whether a pattern matches all of the characters, told from the pattern itself. -/
def matchesChars : List Char → List Char → Bool
  | [], text => text.isEmpty
  | p :: pattern, text =>
    if p = '*' then anyEnd (matchesChars pattern) text
    else
      match text with
      | [] => false
      | c :: rest => (p = '?' || p = c) && matchesChars pattern rest

theorem matchesTokens_eq_matchesChars (pattern text : List Char) :
    matchesTokens (pattern.map Token.ofChar) text = matchesChars pattern text := by
  induction pattern generalizing text with
  | nil => rfl
  | cons p pattern ih =>
    rw [List.map_cons, Token.ofChar]
    by_cases hstar : p = '*'
    · simp only [matchesChars, if_pos hstar, matchesTokens, funext ih]
    rw [if_neg hstar]
    by_cases hmark : p = '?'
    · cases text <;> simp [matchesTokens, matchesChars, hmark, ih]
    rw [if_neg hmark]
    cases text <;> split <;> simp [matchesTokens, matchesChars, hstar, hmark, ih]

/-- A match needs no expression: it can be told from the pattern itself. -/
theorem isMatch_eq_matchesChars (pattern text : String) :
    isMatch pattern text = matchesChars pattern.toList text.toList := by
  rw [isMatch_eq_matchesTokens, matchesTokens_eq_matchesChars]

/-- A pattern matches exactly the texts that can be cut into consecutive pieces,
one that fits for each of its characters. The expression of the pattern, read back
and held against the whole text, matches the same texts. -/
theorem isMatch_iff_cut (pattern text : String) :
    (isMatch pattern text = true ↔
      ∃ pieces, List.Forall₂ (fun p piece => (Symbol.ofChar p).Fits piece) pattern.toList pieces ∧
        pieces.flatten = text.toList) ∧
    ∃ tokens, Token.read? (regex pattern).toList = some tokens ∧
      (isMatch pattern text = true ↔ Cut (tokens.map Token.symbol) text.toList) := by
  have hmatch : isMatch pattern text = true ↔
      Cut (pattern.toList.map Symbol.ofChar) text.toList := by
    rw [isMatch_eq_matchesTokens, matchesTokens_iff]
    simp [Function.comp_def, Token.symbol_ofChar]
  constructor
  · simpa only [Cut, List.forall₂_map_left_iff] using hmatch
  · refine ⟨_, Token.read?_eq_some_iff.mpr (Token.spells_regex pattern), ?_⟩
    simpa [Function.comp_def, Token.symbol_ofChar] using hmatch

end EventPolicy.Wildcard
