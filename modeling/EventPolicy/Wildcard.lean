/-!
Patterns with wildcards: a star stands for any run of characters, a question
mark for any single one, and every other character for itself. A pattern is
turned into a regular expression, and it matches a text if the expression does as
a whole, where a dot fits every character, the end of a line among them.
-/

namespace EventPolicy.Wildcard

/-- The characters that have a meaning of their own in a regular expression. -/
def regexSpecials : List Char :=
  ['(', ')', '[', ']', '\x7b', '\x7d', '?', '*', '+', '-', '|', '^', '$', '\\', '.', '&', '~', '#',
   ' ', '\t', '\n', '\r', '\x0b', '\x0c']

/-- The regular expression of one character of a pattern. -/
def regexOfChar (c : Char) : List Char :=
  if c = '*' then ['.', '*']
  else if c = '?' then ['.']
  else if c ∈ regexSpecials then ['\\', c]
  else [c]

def regex (pattern : String) : String := String.ofList (pattern.toList.flatMap regexOfChar)

/-- A part of the expression of a pattern: a dot with a star, a dot, a character
behind a backslash, or a plain character. -/
inductive Token where
  | run
  | single
  | escaped (c : Char)
  | plain (c : Char)
  deriving DecidableEq, Repr

/-- The characters that do something in a regular expression instead of standing
for themselves. -/
def signs : List Char := ['.', '*', '+', '?', '\x7b', '(', ')', '[', '^', '$', '|', '\\']

/-- The tokens of an expression, if it has no others. -/
def Token.read? : List Char → Option (List Token)
  | [] => some []
  | '.' :: '*' :: rest => (read? rest).map (.run :: ·)
  | '.' :: rest => (read? rest).map (.single :: ·)
  | '\\' :: c :: rest => (read? rest).map (.escaped c :: ·)
  | c :: rest => if c ∈ signs then none else (read? rest).map (.plain c :: ·)

/-- Whether a test holds of the text or of one of its ends. -/
def anyEnd (test : List Char → Bool) : List Char → Bool
  | [] => test []
  | c :: rest => test (c :: rest) || anyEnd test rest

/-- Whether tokens match all of the characters. A run may take up any of them, so
the tokens behind it have to match some end of the text. -/
def matchesTokens : List Token → List Char → Bool
  | [], text => text.isEmpty
  | .run :: tokens, text => anyEnd (matchesTokens tokens) text
  | .single :: tokens, _ :: rest => matchesTokens tokens rest
  | .escaped c :: tokens, d :: rest => c = d && matchesTokens tokens rest
  | .plain c :: tokens, d :: rest => c = d && matchesTokens tokens rest
  | _ :: _, [] => false

/-- Whether an expression of such tokens matches the whole text. -/
def matchesWhole (expression text : String) : Bool :=
  match Token.read? expression.toList with
  | some tokens => matchesTokens tokens text.toList
  | none => false

def isMatch (pattern text : String) : Bool := matchesWhole (regex pattern) text

/-- A test holds of some end exactly when the text divides before such an end. -/
theorem anyEnd_iff {test : List Char → Bool} {text : List Char} :
    anyEnd test text = true ↔ ∃ before after, text = before ++ after ∧ test after = true := by
  induction text with
  | nil =>
    constructor
    · exact fun holds => ⟨[], [], rfl, holds⟩
    · rintro ⟨before, after, divided, holds⟩
      obtain ⟨rfl, rfl⟩ := List.append_eq_nil_iff.1 divided.symm
      exact holds
  | cons c rest ih =>
    simp only [anyEnd, Bool.or_eq_true, ih]
    constructor
    · rintro (here | ⟨before, after, rfl, later⟩)
      · exact ⟨[], c :: rest, rfl, here⟩
      · exact ⟨c :: before, after, rfl, later⟩
    · rintro ⟨before, after, divided, holds⟩
      cases before with
      | nil => exact .inl (by simpa [divided] using holds)
      | cons d before =>
        obtain ⟨rfl, rfl⟩ := List.cons.inj divided
        exact .inr ⟨before, after, rfl, holds⟩

end EventPolicy.Wildcard
