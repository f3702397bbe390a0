import EventPolicy.Text.LowerTable

/-!
Letter case. `lower` writes a text in small letters: each capital by its small
letter, except that the dotted capital I becomes an i with a dot above and
that a capital sigma at the end of a word becomes a final sigma. `capitals`
gives the capital form of the characters whose capital form is plain ASCII,
which is all that a look-up among ASCII names can see.
-/

namespace EventPolicy.Text

/-- The small letter of a capital with a single one; other characters stay. -/
def lowerChar (c : Char) : Char :=
  if c.toNat < 128 then
    if 'A' ≤ c ∧ c ≤ 'Z' then Char.ofNat (c.toNat + 32) else c
  else
    match capitalRuns.find? (·.holds c.toNat) with
    | some run => Char.ofNat (c.toNat + run.shift).toNat
    | none => c

/-- Whether a character is a letter with case that can end a word. -/
def isCased (c : Char) : Bool := inRanges casedRanges c.toNat

/-- Whether a character is passed over when the end of a word is sought. -/
def isCaseIgnorable (c : Char) : Bool := inRanges caseIgnorableRanges c.toNat

/-- Whether the nearest character that is not passed over is a letter with case. -/
def meetsCased (text : List Char) : Bool :=
  match text.dropWhile isCaseIgnorable with
  | [] => false
  | c :: _ => isCased c

/-- The small form of the characters, with those already passed in `before`,
nearest first. -/
def lowerFrom (before : List Char) : List Char → List Char
  | [] => []
  | c :: rest =>
    let small :=
      if c = 'Σ' then (if meetsCased before && !meetsCased rest then ['ς'] else ['σ'])
      else if c = 'İ' then ['i', '\u0307']
      else [lowerChar c]
    small ++ lowerFrom (c :: before) rest

def lower (text : String) : String := String.ofList (lowerFrom [] text.toList)

/-- The characters outside ASCII whose capital form is plain ASCII. Ligatures
and the sharp s have capital forms of several letters. -/
def asciiCapitalForms : List (Char × List Char) :=
  [('ß', ['S', 'S']), ('ı', ['I']), ('ſ', ['S']), ('ﬀ', ['F', 'F']), ('ﬁ', ['F', 'I']),
   ('ﬂ', ['F', 'L']), ('ﬃ', ['F', 'F', 'I']), ('ﬄ', ['F', 'F', 'L']), ('ﬅ', ['S', 'T']),
   ('ﬆ', ['S', 'T'])]

/-- The capital form of a character, where that form is plain ASCII. -/
def capitals (c : Char) : Option (List Char) :=
  if c.toNat < 128 then
    some [if 'a' ≤ c ∧ c ≤ 'z' then Char.ofNat (c.toNat - 32) else c]
  else (asciiCapitalForms.find? (·.1 == c)).map Prod.snd

/-- The capital form of characters that all have a plain ASCII one. -/
def capitalsOf : List Char → Option (List Char)
  | [] => some []
  | c :: rest => do
    let first ← capitals c
    let others ← capitalsOf rest
    return first ++ others

/-- A text in capitals, if its capital form is plain ASCII. -/
def asciiUpper? (text : String) : Option String := (capitalsOf text.toList).map String.ofList

/-- The capital form has one letter or more for each character. -/
theorem length_le_of_capitalsOf {text upper : List Char} (h : capitalsOf text = some upper) :
    text.length ≤ upper.length := by
  induction text generalizing upper with
  | nil => simp
  | cons c rest ih =>
    simp only [capitalsOf, Option.bind_eq_bind, Option.bind_eq_some_iff] at h
    obtain ⟨first, hfirst, others, hothers, h⟩ := h
    obtain rfl := Option.some.inj h
    have some_letter : 1 ≤ first.length := by
      simp only [capitals] at hfirst
      split at hfirst
      · obtain rfl := Option.some.inj hfirst
        simp
      · obtain ⟨form, found, rfl⟩ := Option.map_eq_some_iff.1 hfirst
        have nonempty : ∀ form ∈ asciiCapitalForms, 1 ≤ form.2.length := by decide
        exact nonempty form (List.mem_of_find?_eq_some found)
    have := ih hothers
    simp only [List.length_cons, List.length_append]
    omega

end EventPolicy.Text
