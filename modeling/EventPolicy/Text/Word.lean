/-!
Fixed words in a text: whether a text starts with a word, and where a word
first occurs.
-/

namespace EventPolicy.Text

/-- The rest of the text after a word that it starts with. -/
def afterWord? : List Char → List Char → Option (List Char)
  | [], text => some text
  | _ :: _, [] => none
  | c :: word, d :: text => if c = d then afterWord? word text else none

/-- The text before the first occurrence of a word and the text after it. -/
def aroundWord? (word : List Char) : List Char → Option (List Char × List Char)
  | [] => (afterWord? word []).map fun after => ([], after)
  | c :: rest =>
    match afterWord? word (c :: rest) with
    | some after => some ([], after)
    | none => (aroundWord? word rest).map fun (before, after) => (c :: before, after)

/-- A text starts with a word exactly when it is the word and what follows. -/
theorem afterWord?_eq_some_iff {word text rest : List Char} :
    afterWord? word text = some rest ↔ text = word ++ rest := by
  induction word generalizing text with
  | nil => simp [afterWord?, eq_comm]
  | cons c word ih =>
    cases text with
    | nil => simp [afterWord?]
    | cons d text =>
      by_cases same : c = d
      · simp [afterWord?, same, ih]
      · have apart : d ≠ c := fun h => same h.symm
        simp [afterWord?, same, apart]

/-- The text around a word, with the word, is the whole text. -/
theorem append_of_aroundWord? {word text before after : List Char}
    (h : aroundWord? word text = some (before, after)) : text = before ++ word ++ after := by
  induction text generalizing before with
  | nil =>
    simp only [aroundWord?, Option.map_eq_some_iff, Prod.mk.injEq] at h
    obtain ⟨rest, found, rfl, rfl⟩ := h
    simpa using afterWord?_eq_some_iff.1 found
  | cons c text ih =>
    simp only [aroundWord?] at h
    split at h
    · next rest found =>
      simp only [Option.some.injEq, Prod.mk.injEq] at h
      obtain ⟨rfl, rfl⟩ := h
      simpa using afterWord?_eq_some_iff.1 found
    · simp only [Option.map_eq_some_iff, Prod.mk.injEq, Prod.exists] at h
      obtain ⟨b, a, found, rfl, rfl⟩ := h
      simp [ih found]

end EventPolicy.Text
