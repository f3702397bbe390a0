import EventPolicy.Wildcard

/-!
The regular expression of a pattern, read back. An expression is read from left
to right: a backslash takes the next character with it, a few signs do something,
and every other character stands for itself. Of all that can be read in an
expression, those of patterns hold only the dot, the star behind a dot, and
characters that stand for themselves, and each of these comes from one character
of the pattern, whatever stands beside it.
-/

namespace EventPolicy.Wildcard

/-- What a character of a pattern stands for: any run of characters, any single
character, or itself. -/
inductive Symbol where
  | run
  | single
  | literal (c : Char)
  deriving DecidableEq, Repr

namespace Symbol

def ofChar (c : Char) : Symbol :=
  if c = '*' then .run else if c = '?' then .single else .literal c

/-- The character of a pattern that stands for a symbol. -/
def char : Symbol → Char
  | .run => '*'
  | .single => '?'
  | .literal c => c

theorem char_ofChar (c : Char) : (ofChar c).char = c := by
  unfold ofChar
  split
  · next h => exact h.symm
  · split
    · next h => exact h.symm
    · rfl

end Symbol

/-- What a regular expression can hold: the dot, a quantifier, the bracket of a
group, the opening bracket of a set, an anchor, the bar between alternatives, a
backslash with a letter or a digit, a backslash with nothing behind it, or a
character that stands for itself. -/
inductive Lexeme where
  | anyChar
  | quantifier (c : Char)
  | group (c : Char)
  | set
  | anchor (c : Char)
  | alternation
  | shorthand (c : Char)
  | unfinished
  | literal (c : Char)
  deriving DecidableEq, Repr

namespace Lexeme

def ofChar : Char → Lexeme
  | '.' => .anyChar
  | '*' => .quantifier '*'
  | '+' => .quantifier '+'
  | '?' => .quantifier '?'
  | '\x7b' => .quantifier '\x7b'
  | '(' => .group '('
  | ')' => .group ')'
  | '[' => .set
  | '^' => .anchor '^'
  | '$' => .anchor '$'
  | '|' => .alternation
  | '\\' => .unfinished
  | c => .literal c

def ofEscaped (c : Char) : Lexeme := if c.isAlphanum then .shorthand c else .literal c

/-- What an expression holds, from left to right. Behind the bracket that opens a
set other rules would hold; no expression of a pattern comes there. -/
def read : List Char → List Lexeme
  | '\\' :: c :: rest => ofEscaped c :: read rest
  | c :: rest => ofChar c :: read rest
  | [] => []

end Lexeme

namespace Token

def text : Token → List Char
  | .run => ['.', '*']
  | .single => ['.']
  | .escaped c => ['\\', c]
  | .plain c => [c]

def symbol : Token → Symbol
  | .run => .run
  | .single => .single
  | .escaped c => .literal c
  | .plain c => .literal c

/-- The part of the expression that comes from a character of the pattern. -/
def ofChar (c : Char) : Token :=
  if c = '*' then .run
  else if c = '?' then .single
  else if c ∈ regexSpecials then .escaped c
  else .plain c

/-- No plain character is a sign. -/
def IsProper : Token → Prop
  | .plain c => c ∉ signs
  | _ => True

/-- The text of the tokens, one behind the other, is the expression. -/
def Spells (tokens : List Token) (expression : List Char) : Prop :=
  (∀ token ∈ tokens, token.IsProper) ∧ tokens.flatMap text = expression

theorem spells_nil_iff {expression : List Char} : Spells [] expression ↔ expression = [] := by
  simp [Spells, eq_comm]

theorem spells_cons_iff {token : Token} {tokens : List Token} {expression : List Char} :
    Spells (token :: tokens) expression ↔
      token.IsProper ∧ ∃ rest, Spells tokens rest ∧ expression = token.text ++ rest := by
  simp only [Spells, List.forall_mem_cons, List.flatMap_cons]
  constructor
  · rintro ⟨⟨htoken, htokens⟩, rfl⟩
    exact ⟨htoken, _, ⟨htokens, rfl⟩, rfl⟩
  · rintro ⟨htoken, rest, ⟨htokens, rfl⟩, rfl⟩
    exact ⟨⟨htoken, htokens⟩, rfl⟩

/-- No text of tokens starts with a star: a star belongs to the dot before it. -/
theorem head?_ne_star {tokens : List Token} {expression : List Char}
    (h : Spells tokens expression) : expression.head? ≠ some '*' := by
  cases tokens with
  | nil => simp [spells_nil_iff.mp h]
  | cons token tokens =>
    obtain ⟨hproper, rest, -, rfl⟩ := spells_cons_iff.mp h
    cases token with
    | plain c =>
      rintro hstar
      obtain rfl : c = '*' := by simpa [text] using hstar
      exact hproper (by decide)
    | _ => simp [text]

theorem read?_single {rest : List Char} (h : rest.head? ≠ some '*') :
    read? ('.' :: rest) = (read? rest).map (.single :: ·) := by
  rw [read?]
  rintro more rfl
  exact h rfl

theorem read?_plain {c : Char} (h : c ∉ signs) (rest : List Char) :
    read? (c :: rest) = (read? rest).map (.plain c :: ·) := by
  have hdot : c ≠ '.' := fun hc => h (hc ▸ by decide)
  have hbackslash : c ≠ '\\' := fun hc => h (hc ▸ by decide)
  rw [read?, if_neg h]
  · exact fun more hc => absurd hc hdot
  · exact hdot
  · exact fun d more hc => absurd hc hbackslash

theorem read?_of_spells {tokens : List Token} {expression : List Char}
    (h : Spells tokens expression) : read? expression = some tokens := by
  induction tokens generalizing expression with
  | nil =>
    obtain rfl := spells_nil_iff.mp h
    rfl
  | cons token tokens ih =>
    obtain ⟨hproper, rest, hrest, rfl⟩ := spells_cons_iff.mp h
    cases token with
    | run => simp [text, read?, ih hrest]
    | single => simp [text, read?_single (head?_ne_star hrest), ih hrest]
    | escaped c => simp [text, read?, ih hrest]
    | plain c => simp [text, read?_plain hproper, ih hrest]

theorem spells_of_read? {tokens : List Token} {expression : List Char}
    (h : read? expression = some tokens) : Spells tokens expression := by
  -- One case for each clause of the reader. It gives up only at a sign, in `case5`.
  fun_induction read? expression generalizing tokens with
  | case1 =>
    cases h
    exact spells_nil_iff.mpr rfl
  | case2 rest ih =>
    obtain ⟨more, hmore, rfl⟩ := Option.map_eq_some_iff.mp h
    exact spells_cons_iff.mpr ⟨trivial, rest, ih hmore, rfl⟩
  | case3 rest _ ih =>
    obtain ⟨more, hmore, rfl⟩ := Option.map_eq_some_iff.mp h
    exact spells_cons_iff.mpr ⟨trivial, rest, ih hmore, rfl⟩
  | case4 c rest ih =>
    obtain ⟨more, hmore, rfl⟩ := Option.map_eq_some_iff.mp h
    exact spells_cons_iff.mpr ⟨trivial, rest, ih hmore, rfl⟩
  | case5 => cases h
  | case6 c rest _ _ _ hplain ih =>
    obtain ⟨more, hmore, rfl⟩ := Option.map_eq_some_iff.mp h
    exact spells_cons_iff.mpr ⟨hplain, rest, ih hmore, rfl⟩

/-- An expression is the text of the tokens that are read in it and of no others. -/
theorem read?_eq_some_iff {tokens : List Token} {expression : List Char} :
    read? expression = some tokens ↔ Spells tokens expression :=
  ⟨spells_of_read?, read?_of_spells⟩

theorem symbol_ofChar (c : Char) : (ofChar c).symbol = .ofChar c := by
  unfold ofChar Symbol.ofChar
  split
  · rfl
  · split
    · rfl
    · split <;> rfl

theorem text_ofChar (c : Char) : (ofChar c).text = regexOfChar c := by
  unfold ofChar regexOfChar
  split
  · rfl
  · split
    · rfl
    · split <;> rfl

theorem signs_subset : signs ⊆ regexSpecials := by decide

theorem isProper_ofChar (c : Char) : (ofChar c).IsProper := by
  unfold ofChar
  split
  · trivial
  · split
    · trivial
    · split
      · trivial
      · next hplain => exact fun hsign => hplain (signs_subset hsign)

theorem spells_regex (pattern : String) :
    Spells (pattern.toList.map ofChar) (regex pattern).toList := by
  constructor
  · intro token htoken
    obtain ⟨c, -, rfl⟩ := List.mem_map.mp htoken
    exact isProper_ofChar c
  · simp [regex, List.flatMap_map, text_ofChar]

end Token

/-- The pattern that an expression comes from, if it has the tokens of one. -/
def pattern? (expression : String) : Option String :=
  (Token.read? expression.toList).map fun tokens =>
    String.ofList (tokens.map fun token => token.symbol.char)

theorem pattern?_regex (pattern : String) : pattern? (regex pattern) = some pattern := by
  rw [pattern?, Token.read?_eq_some_iff.mpr (Token.spells_regex pattern)]
  simp [Function.comp_def, Token.symbol_ofChar, Symbol.char_ofChar]

namespace Lexeme

theorem ofChar_eq_literal {c : Char} (h : c ∉ signs) : ofChar c = .literal c := by
  unfold ofChar
  split
  case h_13 => rfl
  all_goals exact absurd (by decide) h

theorem ofEscaped_eq_literal {c : Char} (h : c ∈ regexSpecials) : ofEscaped c = .literal c := by
  have hall : regexSpecials.all (fun special => !special.isAlphanum) = true := by rfl
  have hnone := List.all_eq_true.mp hall c h
  simp only [Bool.not_eq_true'] at hnone
  simp [ofEscaped, hnone]

theorem read_plain {c : Char} (h : c ∉ signs) (rest : List Char) :
    read (c :: rest) = .literal c :: read rest := by
  rw [read, ofChar_eq_literal h]
  rintro d more rfl
  exact absurd (by decide) h

end Lexeme

/-- What an expression holds where a symbol is spelled. -/
def Symbol.lexemes : Symbol → List Lexeme
  | .run => [.anyChar, .quantifier '*']
  | .single => [.anyChar]
  | .literal c => [.literal c]

/-- What comes from a character of the pattern is read by itself, whatever follows. -/
theorem read_regexOfChar_append (c : Char) (rest : List Char) :
    Lexeme.read (regexOfChar c ++ rest) = (Symbol.ofChar c).lexemes ++ Lexeme.read rest := by
  unfold regexOfChar Symbol.ofChar
  split
  · rfl
  · split
    · rfl
    · split
      · next hspecial =>
        exact congrArg (· :: Lexeme.read rest) (Lexeme.ofEscaped_eq_literal hspecial)
      · next hplain =>
        exact Lexeme.read_plain (fun hsign => hplain (Token.signs_subset hsign)) rest

theorem read_flatMap_regexOfChar (pattern : List Char) :
    Lexeme.read (pattern.flatMap regexOfChar) =
      (pattern.map Symbol.ofChar).flatMap Symbol.lexemes := by
  induction pattern with
  | nil => rfl
  | cons c pattern ih =>
    rw [List.flatMap_cons, read_regexOfChar_append, ih]
    rfl

/-- The expression of a pattern is the text of one sequence of tokens only, one
for each character of the pattern, which stands for what the character stands
for. All that the expression holds is what these spell one behind the other: dots,
the stars of runs behind their dots, and characters that stand for themselves. So
the pattern can be read back, and no other pattern has the expression. -/
theorem regex_readable (pattern : String) :
    (∀ tokens : List Token, Token.Spells tokens (regex pattern).toList ↔
      tokens = pattern.toList.map Token.ofChar) ∧
    (pattern.toList.map Token.ofChar).map Token.symbol = pattern.toList.map Symbol.ofChar ∧
    Lexeme.read (regex pattern).toList =
      (pattern.toList.map Symbol.ofChar).flatMap Symbol.lexemes ∧
    pattern? (regex pattern) = some pattern ∧
    ∀ other, regex other = regex pattern ↔ other = pattern := by
  have hread : Token.read? (regex pattern).toList = some (pattern.toList.map Token.ofChar) :=
    Token.read?_eq_some_iff.mpr (Token.spells_regex pattern)
  refine ⟨fun tokens => ?_, ?_, ?_, pattern?_regex pattern, fun other => ⟨fun h => ?_, ?_⟩⟩
  · rw [← Token.read?_eq_some_iff, hread, Option.some.injEq, eq_comm]
  · simp [Token.symbol_ofChar]
  · simpa [regex] using read_flatMap_regexOfChar pattern.toList
  · have hother := pattern?_regex other
    rw [h, pattern?_regex] at hother
    exact (Option.some.inj hother).symm
  · rintro rfl
    rfl

end EventPolicy.Wildcard
