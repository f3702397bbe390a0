import EventPolicy.Proofs.Text.Segment
import EventPolicy.Text.Blank

/-!
The words of a text. A text is its words in their order with blanks around them,
and there is one list of words of which that is true (`words_eq_iff`). As a set
the words are the maximal runs without blanks (`mem_words_iff`), so neither their
order nor the blanks around them are seen in it.
-/

namespace EventPolicy.Text

/-- A run that can be a word: it is filled and has no blanks. -/
structure Unbroken (run : List Char) : Prop where
  filled : run ≠ []
  unblank : ∀ c ∈ run, isBlank c = false

/-- A run of a text that goes on to neither side: blanks or the ends of the text
enclose it. -/
def MaximalRun (text run : List Char) : Prop :=
  Unbroken run ∧ ∃ before after, text = before ++ run ++ after ∧
    (∀ c ∈ before.getLast?, isBlank c = true) ∧ ∀ c ∈ after.head?, isBlank c = true

/-- A text that is these words in this order, with blanks between any two of them
and, if need be, before and behind them. -/
inductive Spaced : List (List Char) → List Char → Prop
  | nil : Spaced [] []
  | blank {found : List (List Char)} {c : Char} {text : List Char} (hblank : isBlank c = true)
      (htext : Spaced found text) : Spaced found (c :: text)
  | word {found : List (List Char)} {word text : List Char} (hword : Unbroken word)
      (hends : ∀ c ∈ text.head?, isBlank c = true) (htext : Spaced found text) :
      Spaced (word :: found) (word ++ text)

variable {text current run : List Char} {c : Char}

theorem unblank_concat (hrun : ∀ d ∈ run, isBlank d = false) (hc : isBlank c = false) :
    ∀ d ∈ run ++ [c], isBlank d = false := by
  intro d hd
  rcases List.mem_append.mp hd with hd | hd
  · exact hrun d hd
  · rw [List.mem_singleton.mp hd, hc]

theorem wordsFrom_append (hrun : ∀ c ∈ run, isBlank c = false) (current text : List Char) :
    wordsFrom current (run ++ text) = wordsFrom (current ++ run) text := by
  induction run generalizing current with
  | nil => rw [List.nil_append, List.append_nil]
  | cons c run ih =>
    obtain ⟨hc, hrun⟩ := List.forall_mem_cons.mp hrun
    rw [List.cons_append, wordsFrom, if_neg (by simp [hc]), ih hrun, List.append_assoc,
      List.singleton_append]

theorem wordsFrom_of_spaced {found : List (List Char)} (h : Spaced found text) :
    wordsFrom [] text = found := by
  induction h with
  | nil => rfl
  | blank hblank _ ih => rw [wordsFrom, if_pos hblank, if_pos rfl, ih]
  | @word found word text hword hends _ ih =>
    rw [wordsFrom_append hword.unblank, List.nil_append]
    cases text with
    | nil => rw [← ih, wordsFrom, if_neg hword.filled, wordsFrom, if_pos rfl]
    | cons c rest =>
      have hblank : isBlank c = true := hends c rfl
      rw [← ih, wordsFrom, if_pos hblank, if_neg hword.filled, wordsFrom, if_pos hblank, if_pos rfl]

/-- A text is spaced as its words are, also if some of a word is already read. -/
theorem spaced_wordsFrom (hcurrent : ∀ c ∈ current, isBlank c = false) (text : List Char) :
    Spaced (wordsFrom current text) (current ++ text) := by
  -- along the text, as it is read: the word begun in `current` grows on the way
  induction text generalizing current with
  | nil =>
    by_cases hempty : current = []
    · subst hempty
      exact .nil
    · rw [wordsFrom, if_neg hempty]
      exact .word ⟨hempty, hcurrent⟩ (by simp) .nil
  | cons c rest ih =>
    by_cases hblank : isBlank c = true
    · have hrest : Spaced (wordsFrom [] rest) (c :: rest) := .blank hblank (ih (by simp))
      by_cases hempty : current = []
      · rw [wordsFrom, if_pos hblank, if_pos hempty, hempty]
        exact hrest
      · rw [wordsFrom, if_pos hblank, if_neg hempty]
        exact .word ⟨hempty, hcurrent⟩ (by simpa using hblank) hrest
    · have hmore := unblank_concat hcurrent (by simpa using hblank)
      rw [wordsFrom, if_neg hblank, List.append_cons current c rest]
      exact ih hmore

/-- The words of a text are the one list that it spaces. -/
theorem words_eq_iff {text : String} {found : List String} :
    words text = found ↔ Spaced (found.map String.toList) text.toList := by
  have hspaced : Spaced (wordsFrom [] text.toList) text.toList := spaced_wordsFrom (by simp) _
  rw [words, map_ofList_eq_iff]
  exact ⟨fun h => h ▸ hspaced, wordsFrom_of_spaced⟩

/-- Texts that are unbroken are the words of what they are joined to by blanks. -/
theorem words_join {items : List String} (hitems : ∀ item ∈ items, Unbroken item.toList) :
    words (join " " items) = items := by
  rw [words_eq_iff]
  induction items with
  | nil => exact .nil
  | cons item rest ih =>
    obtain ⟨hitem, hrest⟩ := List.forall_mem_cons.mp hitems
    cases rest with
    | nil =>
      have halone : Spaced [item.toList] (item.toList ++ []) := .word hitem (by simp) .nil
      rwa [List.append_nil] at halone
    | cons next others =>
      -- the blank behind the item ends it and begins the rest
      have hblank : isBlank ' ' = true := by decide
      have hjoin : (join " " (item :: next :: others)).toList =
          item.toList ++ ' ' :: (join " " (next :: others)).toList := by
        simp [join]
      rw [hjoin]
      exact .word hitem (by simpa using hblank) (.blank hblank (ih hrest))

/-- A run without blanks has no maximal run but itself. -/
theorem maximalRun_of_unblank (htext : ∀ c ∈ text, isBlank c = false) :
    MaximalRun text run ↔ run = text ∧ text ≠ [] := by
  constructor
  · rintro ⟨hrun, before, after, rfl, hbefore, hafter⟩
    have hnone : before = [] := by
      cases hlast : before.getLast? with
      | none => exact List.getLast?_eq_none_iff.mp hlast
      | some c =>
        have hc := htext c (by simp [List.mem_of_getLast? hlast])
        rw [hbefore c hlast] at hc
        cases hc
    have hno : after = [] := by
      cases after with
      | nil => rfl
      | cons c rest =>
        have hc := htext c (by simp)
        rw [hafter c rfl] at hc
        cases hc
    simpa [hnone, hno] using hrun.filled
  · rintro ⟨rfl, hfilled⟩
    exact ⟨⟨hfilled, htext⟩, [], [], by simp, by simp, by simp⟩

/-- A run stands on one side of a character that it does not have. -/
theorem beside_of_not_mem {left right before after : List Char} (hfilled : run ≠ []) (hc : c ∉ run)
    (h : left ++ c :: right = before ++ run ++ after) :
    (∃ rest, left = before ++ run ++ rest ∧ after = rest ++ c :: right) ∨
      ∃ rest, before = left ++ c :: rest ∧ right = rest ++ run ++ after := by
  rw [List.append_assoc] at h
  rcases List.append_eq_append_iff.mp h with ⟨part, rfl, hright⟩ | ⟨part, rfl, hrest⟩
  · cases part with
    | nil =>
      obtain ⟨d, rest, rfl⟩ := List.exists_cons_of_ne_nil hfilled
      obtain ⟨rfl, -⟩ := List.cons.inj hright
      exact (hc List.mem_cons_self).elim
    | cons d part =>
      obtain ⟨rfl, rfl⟩ := List.cons.inj hright
      exact .inr ⟨part, rfl, (List.append_assoc _ _ _).symm⟩
  · rcases List.append_eq_append_iff.mp hrest with ⟨more, rfl, rfl⟩ | ⟨more, rfl, hmore⟩
    · exact .inl ⟨more, (List.append_assoc _ _ _).symm, rfl⟩
    · cases more with
      | nil => exact .inl ⟨[], by simp, hmore.symm⟩
      | cons d more =>
        obtain ⟨rfl, -⟩ := List.cons.inj hmore
        simp at hc

/-- No run goes across a blank, so the maximal runs are those of both sides of it. -/
theorem maximalRun_append_blank (hblank : isBlank c = true) (left right : List Char) :
    MaximalRun (left ++ c :: right) run ↔ MaximalRun left run ∨ MaximalRun right run := by
  constructor
  · rintro ⟨hrun, before, after, htext, hbefore, hafter⟩
    -- the blank is outside the run, which therefore lies wholly before or behind it
    have hc : c ∉ run := by
      intro hc
      rw [hrun.unblank c hc] at hblank
      cases hblank
    rcases beside_of_not_mem hrun.filled hc htext with ⟨rest, hleft, rfl⟩ | ⟨rest, rfl, hright⟩
    · refine .inl ⟨hrun, before, rest, hleft, hbefore, fun d hd => hafter d ?_⟩
      simp [Option.mem_def.mp hd]
    · refine .inr ⟨hrun, rest, after, hright, fun d hd => hbefore d ?_, hafter⟩
      simp [List.getLast?_cons, Option.mem_def.mp hd]
  · rintro (hleft | hright)
    · obtain ⟨hrun, before, after, rfl, hbefore, hafter⟩ := hleft
      refine ⟨hrun, before, after ++ c :: right, by simp, hbefore, ?_⟩
      cases after with
      | nil => simpa using hblank
      | cons d rest => simpa using hafter
    · obtain ⟨hrun, before, after, rfl, hbefore, hafter⟩ := hright
      refine ⟨hrun, left ++ c :: before, after, by simp, ?_, hafter⟩
      cases hlast : before.getLast? with
      | none => simpa [List.getLast?_cons, hlast] using hblank
      | some d => simpa [List.getLast?_cons, hlast] using hbefore d hlast

/-- What is listed are the maximal runs of the text, with what of it is already read. -/
theorem mem_wordsFrom_iff (hcurrent : ∀ c ∈ current, isBlank c = false) (text : List Char) :
    run ∈ wordsFrom current text ↔ MaximalRun (current ++ text) run := by
  -- up to its first blank the text has one run only, so a blank parts the question in two
  induction text generalizing current with
  | nil =>
    rw [List.append_nil, maximalRun_of_unblank hcurrent, wordsFrom]
    by_cases hempty : current = []
    · simp [hempty]
    · simp [hempty]
  | cons c rest ih =>
    by_cases hblank : isBlank c = true
    · have hrest : run ∈ wordsFrom [] rest ↔ MaximalRun rest run := ih (by simp)
      rw [maximalRun_append_blank hblank, maximalRun_of_unblank hcurrent, wordsFrom, if_pos hblank]
      by_cases hempty : current = []
      · simp [hempty, hrest]
      · simp [hempty, hrest]
    · have hmore := unblank_concat hcurrent (by simpa using hblank)
      rw [wordsFrom, if_neg hblank, List.append_cons current c rest]
      exact ih hmore

theorem mem_words_iff {text run : String} :
    run ∈ words text ↔ MaximalRun text.toList run.toList := by
  rw [← List.nil_append text.toList, ← mem_wordsFrom_iff (by simp), words]
  constructor
  · intro h
    obtain ⟨found, hfound, rfl⟩ := List.mem_map.mp h
    rwa [String.toList_ofList]
  · intro h
    exact List.mem_map.mpr ⟨run.toList, h, String.ofList_toList⟩

theorem spaced_nil_iff : Spaced [] text ↔ ∀ c ∈ text, isBlank c = true := by
  induction text with
  | nil => simpa using Spaced.nil
  | cons c rest ih =>
    rw [List.forall_mem_cons, ← ih]
    constructor
    · intro h
      cases h with
      | blank hblank hrest => exact ⟨hblank, hrest⟩
    · rintro ⟨hblank, hrest⟩
      exact .blank hblank hrest

/-- A text has words if it has a character that is no blank. -/
theorem words_ne_nil_iff {text : String} :
    words text ≠ [] ↔ ∃ c ∈ text.toList, isBlank c = false := by
  rw [Ne, words_eq_iff, List.map_nil, spaced_nil_iff]
  simp

end EventPolicy.Text
