/-!
Cutting a text at a separator character. `cut` divides at the first
separator, `splitAtMost` at the first few and `splitAll` at each one; every
one of them returns pieces whose join by the separator is the text.
-/

namespace EventPolicy.Text

/-- The characters before and after the first separator, if there is one. -/
def cut (separator : Char) : List Char → Option (List Char × List Char)
  | [] => none
  | c :: rest =>
    if c = separator then some ([], rest)
    else (cut separator rest).map fun (before, after) => (c :: before, after)

/-- The pieces between the first `limit` separators; the last piece holds the
remaining separators, so there are at most `limit + 1` pieces. -/
def splitAtMost (separator : Char) : Nat → List Char → List (List Char)
  | 0, text => [text]
  | limit + 1, text =>
    match cut separator text with
    | none => [text]
    | some (before, after) => before :: splitAtMost separator limit after

def splitAll (separator : Char) : List Char → List (List Char)
  | [] => [[]]
  | c :: rest =>
    if c = separator then [] :: splitAll separator rest
    else
      match splitAll separator rest with
      | [] => [[c]]
      | piece :: pieces => (c :: piece) :: pieces

/-- The texts before and after the first separator. A text without it is all
before and nothing after. -/
def partition (text : String) (separator : Char) : String × String :=
  match cut separator text.toList with
  | none => (text, "")
  | some (before, after) => (String.ofList before, String.ofList after)

/-- The pieces of a text between its first `limit` separators. -/
def pieces (text : String) (separator : Char) (limit : Nat) : List String :=
  (splitAtMost separator limit text.toList).map String.ofList

/-- The pieces of a text between all its separators. -/
def allPieces (text : String) (separator : Char) : List String :=
  (splitAll separator text.toList).map String.ofList

def join (separator : String) : List String → String
  | [] => ""
  | [piece] => piece
  | piece :: next :: rest => piece ++ separator ++ join separator (next :: rest)

/-- A cut divides the text at a separator that no earlier one precedes. -/
theorem cut_eq_some_iff {separator : Char} {text before after : List Char} :
    cut separator text = some (before, after) ↔
      text = before ++ separator :: after ∧ separator ∉ before := by
  induction text generalizing before with
  | nil => simp [cut]
  | cons c rest ih =>
    by_cases here : c = separator
    · subst here
      cases before with
      | nil => simp [cut, eq_comm]
      | cons d before => simp +contextual [cut]
    · cases before with
      | nil => simp [cut, here]
      | cons d before =>
        have apart : separator ≠ c := fun h => here h.symm
        simp only [cut, here, if_false, Option.map_eq_some_iff, Prod.mk.injEq, List.cons.injEq,
          Prod.exists, List.cons_append, List.mem_cons, not_or]
        constructor
        · rintro ⟨b, a, found, ⟨rfl, rfl⟩, rfl⟩
          obtain ⟨rfl, free⟩ := ih.1 found
          exact ⟨⟨rfl, rfl⟩, apart, free⟩
        · rintro ⟨⟨rfl, rfl⟩, _, free⟩
          exact ⟨before, after, ih.2 ⟨rfl, free⟩, ⟨rfl, rfl⟩, rfl⟩

/-- Nothing is cut exactly when the separator does not occur. -/
theorem cut_eq_none_iff {separator : Char} {text : List Char} :
    cut separator text = none ↔ separator ∉ text := by
  induction text with
  | nil => simp [cut]
  | cons c rest ih =>
    by_cases here : c = separator
    · simp [cut, here]
    · have apart : separator ≠ c := fun h => here h.symm
      simp [cut, here, apart, ih]

theorem splitAll_ne_nil (separator : Char) (text : List Char) : splitAll separator text ≠ [] := by
  cases text with
  | nil => simp [splitAll]
  | cons c rest =>
    simp only [splitAll]
    split
    · simp
    · split <;> simp

end EventPolicy.Text
