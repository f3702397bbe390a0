import EventPolicy.Redaction

/-!
Runs of characters of one class. A text is cut into a run and what ends it in
one way only, so what follows a run and its stop is determined by the text.
-/

namespace EventPolicy.Redaction

variable {inRun : Char → Bool} {run other rest more text after : List Char} {c stop : Char}

/-- A text that is a run and not empty. -/
def IsRun (inRun : Char → Bool) (text : List Char) : Prop :=
  text ≠ [] ∧ ∀ c ∈ text, inRun c = true

/-- A run does not go on into the text. -/
def Ends (inRun : Char → Bool) (text : List Char) : Prop :=
  ∀ c ∈ text.head?, inRun c = false

instance : Decidable (IsRun inRun text) :=
  decidable_of_iff (text ≠ [] ∧ text.all inRun = true) (by rw [IsRun, List.all_eq_true])

theorem ends_nil : Ends inRun [] := by
  simp [Ends]

theorem ends_cons : Ends inRun (c :: rest) ↔ inRun c = false := by
  simp [Ends]

theorem exists_run (inRun : Char → Bool) (text : List Char) :
    ∃ run rest, text = run ++ rest ∧ (∀ c ∈ run, inRun c = true) ∧ Ends inRun rest := by
  induction text with
  | nil => exact ⟨[], [], rfl, by simp, ends_nil⟩
  | cons c text ih =>
    by_cases hc : inRun c = true
    · obtain ⟨run, rest, rfl, hrun, hrest⟩ := ih
      exact ⟨c :: run, rest, rfl, List.forall_mem_cons.mpr ⟨hc, hrun⟩, hrest⟩
    · exact ⟨[], c :: text, rfl, by simp, ends_cons.mpr (by simpa using hc)⟩

/-- The first character of a text that is not in the class. -/
theorem exists_break (h : ∃ c ∈ text, inRun c = false) :
    ∃ run c rest, text = run ++ c :: rest ∧ (∀ d ∈ run, inRun d = true) ∧ inRun c = false := by
  obtain ⟨run, rest, rfl, hrun, hrest⟩ := exists_run inRun text
  cases rest with
  | nil =>
    obtain ⟨c, hc, hout⟩ := h
    rw [hrun c (by simpa using hc)] at hout
    cases hout
  | cons c rest => exact ⟨run, c, rest, rfl, hrun, ends_cons.mp hrest⟩

/-- There is one way to cut a text into a run and what ends it. -/
theorem run_unique (hrun : ∀ c ∈ run, inRun c = true) (hother : ∀ c ∈ other, inRun c = true)
    (hrest : Ends inRun rest) (hmore : Ends inRun more) (h : run ++ rest = other ++ more) :
    run = other ∧ rest = more := by
  induction run generalizing other with
  | nil =>
    cases other with
    | nil => exact ⟨rfl, h⟩
    | cons d other =>
      obtain rfl : rest = d :: (other ++ more) := h
      have hd := ends_cons.mp hrest
      rw [hother d List.mem_cons_self] at hd
      cases hd
  | cons c run ih =>
    cases other with
    | nil =>
      obtain rfl : c :: (run ++ rest) = more := h
      have hc := ends_cons.mp hmore
      rw [hrun c List.mem_cons_self] at hc
      cases hc
    | cons d other =>
      obtain ⟨rfl, htail⟩ := List.cons.inj h
      obtain ⟨rfl, hsame⟩ := ih (List.forall_mem_cons.mp hrun).2 (List.forall_mem_cons.mp hother).2
        htail
      exact ⟨rfl, hsame⟩

/-- A character of a text in two parts stands in the first if the second has none like it. -/
theorem exists_of_not_mem {front tail : List Char} (h : text ++ tail = front ++ c :: after)
    (hc : c ∉ tail) : ∃ left, text = front ++ c :: left ∧ after = left ++ tail := by
  rcases List.append_eq_append_iff.mp h with ⟨part, -, htail⟩ | ⟨part, htext, hafter⟩
  · exact absurd (by simp [htail]) hc
  · cases part with
    | nil =>
      obtain rfl : c :: after = tail := hafter
      exact absurd List.mem_cons_self hc
    | cons d left =>
      obtain ⟨rfl, rfl⟩ := List.cons.inj hafter
      exact ⟨left, htext, rfl⟩

/-- A character of a text in two parts stands in the second if the first has none like it. -/
theorem exists_of_not_mem_left {front : List Char} (h : front ++ rest = text ++ c :: after)
    (hc : c ∉ front) : ∃ left, text = front ++ left ∧ rest = left ++ c :: after := by
  rcases List.append_eq_append_iff.mp h with ⟨left, htext, hrest⟩ | ⟨part, hfront, hafter⟩
  · exact ⟨left, htext, hrest⟩
  · cases part with
    | nil => exact ⟨[], by rw [hfront, List.append_nil, List.append_nil], hafter.symm⟩
    | cons d part =>
      obtain ⟨rfl, -⟩ := List.cons.inj hafter
      exact absurd (by simp [hfront]) hc

/-- A suffix of a text in two parts is one of the second part, or has all of it
behind a part of the first. -/
theorem suffix_append_cases {found left right : List Char} (h : found <:+ left ++ right) :
    found <:+ right ∨ ∃ part, part ≠ [] ∧ part <:+ left ∧ found = part ++ right := by
  obtain ⟨before, h⟩ := h
  rcases List.append_eq_append_iff.mp h with ⟨part, hleft, hfound⟩ | ⟨part, -, hright⟩
  · by_cases hne : part = []
    · subst hne
      exact .inl ⟨[], by simpa using hfound⟩
    · exact .inr ⟨part, hne, ⟨before, hleft.symm⟩, hfound⟩
  · exact .inl ⟨part, hright.symm⟩

theorem mem_of_suffix_concat {part left : List Char} (h : part <:+ left ++ [c]) (hne : part ≠ []) :
    c ∈ part := by
  obtain ⟨last, rfl, -⟩ := List.suffix_concat_iff.mp h |>.resolve_left hne
  simp

theorem takeWhile_run (hrun : ∀ c ∈ run, inRun c = true) (hrest : Ends inRun rest) :
    (run ++ rest).takeWhile inRun = run := by
  have hnone : rest.takeWhile inRun = [] := by
    cases rest with
    | nil => rfl
    | cons c rest => rw [List.takeWhile_cons, ends_cons.mp hrest, if_neg Bool.false_ne_true]
  rw [List.takeWhile_append_of_pos hrun, hnone, List.append_nil]

theorem dropWhile_run (hrun : ∀ c ∈ run, inRun c = true) (hrest : Ends inRun rest) :
    (run ++ rest).dropWhile inRun = rest := by
  have hall : rest.dropWhile inRun = rest := by
    cases rest with
    | nil => rfl
    | cons c rest => rw [List.dropWhile_cons, ends_cons.mp hrest, if_neg Bool.false_ne_true]
  rw [List.dropWhile_append_of_pos hrun, hall]

/-- What follows a run and its stop, read off the text. -/
theorem afterRun?_eq_some_iff (hstop : inRun stop = false) :
    afterRun? inRun stop text = some after ↔
      ∃ run, IsRun inRun run ∧ text = run ++ stop :: after := by
  obtain ⟨run, rest, rfl, hrun, hrest⟩ := exists_run inRun text
  rw [afterRun?, takeWhile_run hrun hrest, dropWhile_run hrun hrest]
  constructor
  · intro h
    split at h
    · cases h
    · next hne =>
      cases rest with
      | nil => cases h
      | cons c rest =>
        obtain ⟨rfl, hafter⟩ := Option.ite_none_right_eq_some.mp h
        obtain rfl := Option.some.inj hafter
        exact ⟨run, ⟨by simpa using hne, hrun⟩, rfl⟩
  · rintro ⟨other, ⟨hne, hother⟩, htext⟩
    obtain ⟨rfl, rfl⟩ := run_unique hrun hother hrest (ends_cons.mpr hstop) htext
    simp [hne]

/-- Where a text ends a run itself, what follows it goes on with what follows the run. -/
theorem afterRun?_append (hbreak : ∃ c ∈ text, inRun c = false) (more : List Char) :
    afterRun? inRun stop (text ++ more) = (afterRun? inRun stop text).map (· ++ more) := by
  obtain ⟨run, c, rest, rfl, hrun, hc⟩ := exists_break hbreak
  have hends : ∀ text, Ends inRun (c :: text) := fun text => ends_cons.mpr hc
  rw [List.append_assoc, List.cons_append]
  simp only [afterRun?, takeWhile_run hrun (hends _), dropWhile_run hrun (hends _)]
  split
  · rfl
  · split <;> rfl

/-- What follows a run and its stop does not depend on the run. -/
theorem afterRun?_run_append (hrun : IsRun inRun run) (hother : IsRun inRun other) :
    afterRun? inRun stop (run ++ rest) = afterRun? inRun stop (other ++ rest) := by
  obtain ⟨hne, hrun⟩ := hrun
  obtain ⟨hne', hother⟩ := hother
  simp [afterRun?, List.takeWhile_append_of_pos hrun, List.takeWhile_append_of_pos hother,
    List.dropWhile_append_of_pos hrun, List.dropWhile_append_of_pos hother, hne, hne']

end EventPolicy.Redaction
