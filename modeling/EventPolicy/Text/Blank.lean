import EventPolicy.Text.Ranges

/-!
Blank characters and words. A blank is any character that separates words in
a value: the white space of Unicode together with the four information
separators. `words` cuts a text into its maximal runs without blanks.
-/

namespace EventPolicy.Text

/-- The ranges of blank characters, by code point. -/
def blankRanges : List (Nat × Nat) :=
  [(0x9, 0xd), (0x1c, 0x20), (0x85, 0x85), (0xa0, 0xa0), (0x1680, 0x1680),
   (0x2000, 0x200a), (0x2028, 0x2029), (0x202f, 0x202f), (0x205f, 0x205f), (0x3000, 0x3000)]

def isBlank (c : Char) : Bool := inRanges blankRanges c.toNat

/-- The maximal runs without blanks, given the run that has been read so far. -/
def wordsFrom (current : List Char) : List Char → List (List Char)
  | [] => if current = [] then [] else [current]
  | c :: rest =>
    if isBlank c then
      if current = [] then wordsFrom [] rest else current :: wordsFrom [] rest
    else wordsFrom (current ++ [c]) rest

/-- The words of a text, in order: its maximal runs of characters that are not blank. -/
def words (text : String) : List String := (wordsFrom [] text.toList).map String.ofList

/-- Every white space character known to core separates words. -/
theorem isBlank_of_isWhitespace {c : Char} (h : c.isWhitespace = true) : isBlank c = true := by
  have cases : c = ' ' ∨ c = '\t' ∨ c = '\r' ∨ c = '\n' := by
    simpa [Char.isWhitespace, or_assoc] using h
  rcases cases with rfl | rfl | rfl | rfl <;> decide

theorem not_isBlank_of_mem_wordsFrom {current text word : List Char} {c : Char}
    (clean : ∀ d ∈ current, isBlank d = false)
    (hword : word ∈ wordsFrom current text) (hc : c ∈ word) : isBlank c = false := by
  induction text generalizing current with
  | nil =>
    by_cases empty : current = []
    · simp [wordsFrom, empty] at hword
    · simp only [wordsFrom, empty, if_false, List.mem_singleton] at hword
      exact clean c (hword ▸ hc)
  | cons d rest ih =>
    by_cases blank : isBlank d = true
    · by_cases empty : current = []
      · simp only [wordsFrom, blank, empty, if_true] at hword
        exact ih (by simp) hword
      · simp only [wordsFrom, blank, empty, if_true, if_false, List.mem_cons] at hword
        rcases hword with rfl | hword
        · exact clean c hc
        · exact ih (by simp) hword
    · simp only [wordsFrom, blank] at hword
      refine ih ?_ hword
      intro e he
      rcases List.mem_append.1 he with he | he
      · exact clean e he
      · simpa [List.mem_singleton.1 he] using blank

end EventPolicy.Text
