import EventPolicy.Proofs.Redaction.Run

/-!
Replacing what a pattern finds in a text, from left to right and without
overlap. The part of a text before a given place is replaced on its own when no
find reaches over that place, and two texts that differ only behind it stay
alike when every find before it is the same in both.
-/

namespace EventPolicy.Redaction

/-- What is looked for at the start of a text. A find says what is shown in its
place and what follows it; something is found, and what is shown starts with
the character that the text starts with. -/
structure Pattern where
  find? : List Char → Option (List Char × List Char)
  proper : ∀ {text shown after}, find? text = some (shown, after) →
    ∃ seen, seen ≠ [] ∧ text = seen ++ after
  head_eq : ∀ {text shown after}, find? text = some (shown, after) → shown.head? = text.head?

namespace Pattern

variable {pattern : Pattern} {text shown after rest first second left right : List Char} {c : Char}

theorem length_lt (h : pattern.find? text = some (shown, after)) : after.length < text.length := by
  obtain ⟨seen, hseen, rfl⟩ := pattern.proper h
  have hpos := List.length_pos_iff.mpr hseen
  rw [List.length_append]
  omega

def replace (pattern : Pattern) : List Char → List Char
  | [] => []
  | c :: rest =>
    match hfind : pattern.find? (c :: rest) with
    | some (shown, after) =>
      have := length_lt hfind
      shown ++ pattern.replace after
    | none => c :: pattern.replace rest
termination_by text => text.length
decreasing_by
  · exact this
  · exact Nat.lt_succ_self _

/-- Nothing that the pattern looks for starts anywhere in the text. -/
def Absent (pattern : Pattern) (text : List Char) : Prop :=
  ∀ found, found <:+ text → pattern.find? found = none

theorem find?_nil (pattern : Pattern) : pattern.find? [] = none := by
  rw [Option.eq_none_iff_forall_ne_some]
  rintro ⟨shown, after⟩ h
  have hlength := length_lt h
  simp at hlength

theorem replace_nil (pattern : Pattern) : pattern.replace [] = [] := by
  rw [replace]

theorem replace_of_found (h : pattern.find? text = some (shown, after)) :
    pattern.replace text = shown ++ pattern.replace after := by
  cases text with
  | nil => rw [find?_nil] at h; cases h
  | cons c rest =>
    rw [replace]
    split
    · next other hother =>
      obtain ⟨rfl, rfl⟩ := Prod.mk.inj (Option.some.inj (hother.symm.trans h))
      rfl
    · next hnone => rw [hnone] at h; cases h

theorem replace_of_kept (h : pattern.find? (c :: rest) = none) :
    pattern.replace (c :: rest) = c :: pattern.replace rest := by
  rw [replace]
  split
  · next hfound => rw [h] at hfound; cases hfound
  · rfl

/-- Induction along a replacement: from what follows a find to the text, and
from the rest of a text to the text when nothing is found at its start. -/
theorem byScan (pattern : Pattern) {motive : List Char → Prop} (nil : motive [])
    (found : ∀ text shown after, pattern.find? text = some (shown, after) → motive after →
      motive text)
    (kept : ∀ c rest, pattern.find? (c :: rest) = none → motive rest → motive (c :: rest))
    (text : List Char) : motive text := by
  induction hlength : text.length using Nat.strongRecOn generalizing text with
  | _ length ih =>
    cases text with
    | nil => exact nil
    | cons c rest =>
      cases hfind : pattern.find? (c :: rest) with
      | none => exact kept c rest hfind (ih rest.length (by simp [← hlength]) rest rfl)
      | some result =>
        exact found _ result.1 result.2 hfind (ih _ (hlength ▸ length_lt hfind) _ rfl)

/-- A stepwise replacement whose steps are bounded by the length of the text. -/
theorem eq_replace (step : Nat → List Char → List Char) (hzero : ∀ text, step 0 text = text)
    (hnil : ∀ steps, step (steps + 1) [] = [])
    (hfound : ∀ steps c rest shown after, pattern.find? (c :: rest) = some (shown, after) →
      step (steps + 1) (c :: rest) = shown ++ step steps after)
    (hkept : ∀ steps c rest, pattern.find? (c :: rest) = none →
      step (steps + 1) (c :: rest) = c :: step steps rest)
    {steps : Nat} (hsteps : text.length ≤ steps) : step steps text = pattern.replace text := by
  induction steps generalizing text with
  | zero =>
    obtain rfl := List.length_eq_zero_iff.mp (Nat.le_zero.mp hsteps)
    rw [hzero, replace_nil]
  | succ steps ih =>
    cases text with
    | nil => rw [hnil, replace_nil]
    | cons c rest =>
      cases hfind : pattern.find? (c :: rest) with
      | none =>
        have hrest : rest.length ≤ steps := by simpa using hsteps
        rw [hkept _ _ _ hfind, replace_of_kept hfind, ih hrest]
      | some result =>
        have hafter : result.2.length ≤ steps := by
          have hlength := length_lt hfind
          omega
        rw [hfound _ _ _ _ _ hfind, replace_of_found hfind, ih hafter]

theorem Absent.of_suffix (h : pattern.Absent text) (hsuffix : rest <:+ text) :
    pattern.Absent rest :=
  fun found hfound => h found (hfound.trans hsuffix)

/-- Everything that the pattern finds in the text is there as it is shown. -/
def Settled (pattern : Pattern) (text : List Char) : Prop :=
  ∀ found, found <:+ text → ∀ shown after, pattern.find? found = some (shown, after) →
    found = shown ++ after

theorem Settled.of_suffix (h : pattern.Settled text) (hsuffix : rest <:+ text) :
    pattern.Settled rest :=
  fun found hfound => h found (hfound.trans hsuffix)

theorem replace_of_settled (h : pattern.Settled text) : pattern.replace text = text := by
  induction text using byScan pattern with
  | nil => exact replace_nil pattern
  | found text shown after hfind ih =>
    have htext := h text List.suffix_rfl shown after hfind
    have hafter : after <:+ text := htext ▸ List.suffix_append shown after
    rw [replace_of_found hfind, ih (h.of_suffix hafter), ← htext]
  | kept c rest hfind ih =>
    rw [replace_of_kept hfind, ih (h.of_suffix (List.suffix_cons c rest))]

/-- A text in which nothing is found stays as it is. -/
theorem replace_of_absent (h : pattern.Absent text) : pattern.replace text = text := by
  apply replace_of_settled
  intro found hfound shown after hfind
  rw [h found hfound] at hfind
  cases hfind

/-- A part at the start of a replaced text is at the start of the text, or
something found in the text starts in it. -/
theorem replace_eq_append (h : pattern.replace text = left ++ right) :
    (∃ rest, text = left ++ rest ∧ right = pattern.replace rest) ∨
      ∃ before part found shown after, left = before ++ part ∧ part ≠ [] ∧
        text = before ++ found ∧ pattern.find? found = some (shown, after) ∧
          part ++ right = shown ++ pattern.replace after := by
  induction left generalizing text with
  | nil => exact .inl ⟨text, rfl, h.symm⟩
  | cons d left ih =>
    cases text with
    | nil => rw [replace_nil] at h; cases h
    | cons c rest =>
      cases hfind : pattern.find? (c :: rest) with
      | some result =>
        rw [replace_of_found hfind] at h
        exact .inr ⟨[], d :: left, c :: rest, _, _, rfl, by simp, rfl, hfind, h.symm⟩
      | none =>
        rw [replace_of_kept hfind] at h
        obtain ⟨rfl, hrest⟩ := List.cons.inj h
        rcases ih hrest with ⟨behind, rfl, hright⟩ | ⟨before, part, found, shown, after, rfl, hpart⟩
        · exact .inl ⟨behind, rfl, hright⟩
        · obtain ⟨hne, rfl, hfound⟩ := hpart
          exact .inr ⟨c :: before, part, found, shown, after, rfl, hne, rfl, hfound⟩

/-- Where a tail of a replaced text starts: at the end, within what is shown of
something found in the text, or at a character of the text that is kept. -/
inductive Tail (pattern : Pattern) (text : List Char) : List Char → Prop
  | nil : Tail pattern text []
  | shown {found shown after part : List Char} (hsuffix : found <:+ text)
      (hfind : pattern.find? found = some (shown, after)) (hne : part ≠ [])
      (hpart : part <:+ shown) : Tail pattern text (part ++ pattern.replace after)
  | kept {c : Char} {rest : List Char} (hsuffix : c :: rest <:+ text)
      (hfind : pattern.find? (c :: rest) = none) : Tail pattern text (c :: pattern.replace rest)

theorem Tail.of_suffix {tail : List Char} (h : pattern.Tail rest tail) (hrest : rest <:+ text) :
    pattern.Tail text tail := by
  cases h with
  | nil => exact .nil
  | shown hsuffix hfind hne hpart => exact .shown (hsuffix.trans hrest) hfind hne hpart
  | kept hsuffix hfind => exact .kept (hsuffix.trans hrest) hfind

theorem tail_of_suffix {tail : List Char} (h : tail <:+ pattern.replace text) :
    pattern.Tail text tail := by
  induction text using byScan pattern with
  | nil =>
    rw [replace_nil] at h
    rw [List.suffix_nil.mp h]
    exact .nil
  | found text shown after hfind ih =>
    obtain ⟨seen, -, hseen⟩ := pattern.proper hfind
    rw [replace_of_found hfind] at h
    rcases suffix_append_cases h with hrest | ⟨part, hne, hpart, rfl⟩
    · exact (ih hrest).of_suffix ⟨seen, hseen.symm⟩
    · exact .shown List.suffix_rfl hfind hne hpart
  | kept c rest hfind ih =>
    rw [replace_of_kept hfind] at h
    rcases List.suffix_cons_iff.mp h with rfl | hrest
    · exact .kept List.suffix_rfl hfind
    · exact (ih hrest).of_suffix (List.suffix_cons c rest)

/-- Where no find has more of a character than what is shown of it, the
replacement adds none. -/
theorem count_replace_le
    (h : ∀ {text shown after}, pattern.find? text = some (shown, after) →
      shown.count c + after.count c ≤ text.count c) (text : List Char) :
    (pattern.replace text).count c ≤ text.count c := by
  induction text using byScan pattern with
  | nil => exact Nat.le_of_eq (by rw [replace_nil])
  | found text shown after hfind ih =>
    have hshown := h hfind
    rw [replace_of_found hfind, List.count_append]
    omega
  | kept d rest hfind ih =>
    rw [replace_of_kept hfind, List.count_cons, List.count_cons]
    omega

/-- Where what is shown has less of a character than what is found, a find makes it less. -/
theorem count_replace_lt
    (h : ∀ {text shown after}, pattern.find? text = some (shown, after) →
      shown.count c + after.count c < text.count c) (htext : ¬ pattern.Absent text) :
    (pattern.replace text).count c < text.count c := by
  induction text using byScan pattern with
  | nil =>
    refine absurd (fun found hfound => ?_) htext
    rw [List.suffix_nil.mp hfound, find?_nil]
  | found text shown after hfind ih =>
    have hshown := h hfind
    have hafter := count_replace_le (fun hfind => Nat.le_of_lt (h hfind)) after
    rw [replace_of_found hfind, List.count_append]
    omega
  | kept d rest hfind ih =>
    have hrest : ¬ pattern.Absent rest := by
      intro habsent
      apply htext
      intro found hfound
      rcases List.suffix_cons_iff.mp hfound with rfl | hsuffix
      · exact hfind
      · exact habsent found hsuffix
    have hless := ih hrest
    rw [replace_of_kept hfind, List.count_cons, List.count_cons]
    omega

theorem head?_replace (pattern : Pattern) (text : List Char) :
    (pattern.replace text).head? = text.head? := by
  cases text with
  | nil => rw [replace_nil]
  | cons c rest =>
    cases hfind : pattern.find? (c :: rest) with
    | none => rw [replace_of_kept hfind, List.head?_cons, List.head?_cons]
    | some result =>
      have hhead : result.1.head? = some c := pattern.head_eq hfind
      rw [replace_of_found hfind, List.head?_append, hhead, Option.some_or, List.head?_cons]

theorem ends_replace (pattern : Pattern) {inRun : Char → Bool} (h : Ends inRun text) :
    Ends inRun (pattern.replace text) := by
  rw [Ends, head?_replace]
  exact h

/-- Two parts of a text are replaced apart if no find in the first part reaches
over its end. -/
theorem replace_append
    (h : ∀ found, found ≠ [] → found <:+ left → pattern.find? (found ++ right) =
      (pattern.find? found).map fun result => (result.1, result.2 ++ right)) :
    pattern.replace (left ++ right) = pattern.replace left ++ pattern.replace right := by
  induction left using byScan pattern with
  | nil => rw [replace_nil, List.nil_append, List.nil_append]
  | found text shown after hfind ih =>
    obtain ⟨seen, hseen, rfl⟩ := pattern.proper hfind
    have hwhole := h (seen ++ after) (by simp [hseen]) List.suffix_rfl
    rw [hfind, Option.map_some] at hwhole
    have hrest := ih fun found hne hfound => h found hne (hfound.trans (List.suffix_append _ _))
    rw [replace_of_found hwhole, replace_of_found hfind, hrest, List.append_assoc]
  | kept c rest hfind ih =>
    have hwhole := h (c :: rest) (by simp) List.suffix_rfl
    rw [hfind, Option.map_none] at hwhole
    have hrest := ih fun found hne hfound => h found hne (hfound.trans (List.suffix_cons _ _))
    rw [replace_of_kept hfind, List.cons_append, List.cons_append, ← hrest]
    exact replace_of_kept hwhole

/-- Nothing changes before a place if no find starts there. -/
theorem replace_append_of_none
    (h : ∀ found, found ≠ [] → found <:+ left → pattern.find? (found ++ right) = none) :
    pattern.replace (left ++ right) = left ++ pattern.replace right := by
  induction left with
  | nil => rfl
  | cons c rest ih =>
    have hwhole : pattern.find? (c :: (rest ++ right)) = none :=
      h (c :: rest) (by simp) List.suffix_rfl
    have hrest := ih fun found hne hfound => h found hne (hfound.trans (List.suffix_cons _ _))
    rw [List.cons_append, replace_of_kept hwhole, hrest, List.cons_append]

/-- What is found at the start of a text does not depend on which of two ends
the text has: nothing, something before the end, or something with the same
text behind it. -/
inductive SameFind (pattern : Pattern) (first second text : List Char) : Prop where
  | absent (hfirst : pattern.find? (text ++ first) = none)
      (hsecond : pattern.find? (text ++ second) = none)
  | before (shown after : List Char)
      (hfirst : pattern.find? (text ++ first) = some (shown, after ++ first))
      (hsecond : pattern.find? (text ++ second) = some (shown, after ++ second))
  | beyond (shown after : List Char)
      (hfirst : pattern.find? (text ++ first) = some (shown, after))
      (hsecond : pattern.find? (text ++ second) = some (shown, after))

theorem SameFind.of_eq (h : pattern.find? (text ++ first) = pattern.find? (text ++ second)) :
    pattern.SameFind first second text := by
  cases hfirst : pattern.find? (text ++ first) with
  | none => exact .absent hfirst (h ▸ hfirst)
  | some result => exact .beyond _ _ hfirst (h ▸ hfirst)

/-- What is found in the text alone is found with any end behind it. -/
theorem SameFind.of_find (h : ∀ more, pattern.find? (text ++ more) =
      (pattern.find? text).map fun result => (result.1, result.2 ++ more)) :
    pattern.SameFind first second text := by
  cases hfind : pattern.find? text with
  | none =>
    have hnone : ∀ more, pattern.find? (text ++ more) = none := by
      intro more
      rw [h, hfind, Option.map_none]
    exact .absent (hnone _) (hnone _)
  | some result =>
    have hsome : ∀ more, pattern.find? (text ++ more) = some (result.1, result.2 ++ more) := by
      intro more
      rw [h, hfind, Option.map_some]
    exact .before _ _ (hsome _) (hsome _)

/-- Two ends that are alike after the replacement stay so behind a text in which
the same is found with either end. -/
theorem replace_append_alike {Alike : List Char → List Char → Prop}
    (hrefl : ∀ text, Alike text text)
    (happend : ∀ text first second, Alike first second → Alike (text ++ first) (text ++ second))
    (hends : Alike (pattern.replace first) (pattern.replace second))
    (hsame : ∀ found, found ≠ [] → found <:+ left → pattern.SameFind first second found) :
    Alike (pattern.replace (left ++ first)) (pattern.replace (left ++ second)) := by
  induction hlength : left.length using Nat.strongRecOn generalizing left with
  | _ length ih =>
    cases left with
    | nil => exact hends
    | cons c rest =>
      cases hsame (c :: rest) (by simp) List.suffix_rfl with
      | absent hfirst hsecond =>
        have hrest := ih rest.length (by simp [← hlength])
          (fun found hne hfound => hsame found hne (hfound.trans (List.suffix_cons _ _))) rfl
        have hone : pattern.replace (c :: (rest ++ first)) = _ := replace_of_kept hfirst
        have htwo : pattern.replace (c :: (rest ++ second)) = _ := replace_of_kept hsecond
        rw [List.cons_append, List.cons_append, hone, htwo]
        exact happend [c] _ _ hrest
      | before shown after hfirst hsecond =>
        obtain ⟨seen, hseen, htext⟩ := pattern.proper hfirst
        have hleft : c :: rest = seen ++ after := by
          rw [← List.append_assoc] at htext
          exact List.append_cancel_right htext
        have hshorter : after.length < length := by
          have hpos := List.length_pos_iff.mpr hseen
          rw [← hlength, hleft, List.length_append]
          omega
        have hafter := ih after.length hshorter
          (fun found hne hfound => hsame found hne (hleft ▸ hfound.trans (List.suffix_append _ _)))
          rfl
        rw [replace_of_found hfirst, replace_of_found hsecond]
        exact happend shown _ _ hafter
      | beyond shown after hfirst hsecond =>
        rw [replace_of_found hfirst, replace_of_found hsecond]
        exact hrefl _

end Pattern

end EventPolicy.Redaction
