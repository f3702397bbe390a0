import EventPolicy.Json.Reader
import EventPolicy.Proofs.Table.Merge

/-!
Values read from JSON text are well-formed: whatever an object repeats, the table
that is read from it has each name once.
-/

namespace EventPolicy.Json

open Value

theorem wellFormed_of_readNumber {text rest : List Char} {value : Value}
    (h : readNumber text = some (value, rest)) : value.WellFormed := by
  simp only [readNumber, Option.bind_eq_bind, Option.bind_eq_some_iff] at h
  obtain ⟨⟨numeral, after⟩, -, h⟩ := h
  cases numeral with
  | integer number digits =>
    simp only at h
    split at h
    · cases h
    · cases h
      trivial
  | float number =>
    cases h
    trivial

theorem wellFormed_of_readScalar {text rest : List Char} {value : Value}
    (h : readScalar text = some (value, rest)) : value.WellFormed := by
  unfold readScalar at h
  repeat' split at h
  case h_2 => exact wellFormed_of_readNumber h
  all_goals
    cases h
    trivial

/-- What the three readers give in some number of steps is well-formed. -/
structure ReadsWellFormed (fuel : Nat) : Prop where
  value : ∀ text value rest, readValue fuel text = some (value, rest) → value.WellFormed
  items : ∀ text items rest, readItems fuel text = some (items, rest) → AllWellFormed items
  entries : ∀ text entries rest, readEntries fuel text = some (entries, rest) →
    ∀ entry ∈ entries, entry.2.WellFormed

variable {fuel : Nat} {text rest : List Char}

theorem ReadsWellFormed.next_value (h : ReadsWellFormed fuel) {value : Value}
    (hread : readValue (fuel + 1) text = some (value, rest)) : value.WellFormed := by
  cases text with
  | nil => cases hread
  | cons c text =>
    simp only [readValue, Option.bind_eq_bind, Option.pure_def] at hread
    split at hread
    · obtain ⟨_, -, hread⟩ := Option.bind_eq_some_iff.mp hread
      cases hread
      trivial
    · split at hread
      · split at hread
        · cases hread
          trivial
        · obtain ⟨⟨items, after⟩, hitems, hread⟩ := Option.bind_eq_some_iff.mp hread
          cases hread
          exact h.items _ items after hitems
      · split at hread
        · split at hread
          · cases hread
            exact ⟨List.nodup_nil, trivial⟩
          · obtain ⟨⟨entries, after⟩, hentries, hread⟩ := Option.bind_eq_some_iff.mp hread
            cases hread
            exact Table.wellFormed_ofList (h.entries _ entries after hentries)
        · exact wellFormed_of_readScalar hread

theorem ReadsWellFormed.next_items (h : ReadsWellFormed fuel) {items : List Value}
    (hread : readItems (fuel + 1) text = some (items, rest)) : AllWellFormed items := by
  simp only [readItems, Option.bind_eq_bind, Option.pure_def] at hread
  obtain ⟨⟨item, after⟩, hitem, hread⟩ := Option.bind_eq_some_iff.mp hread
  have hwell := h.value _ item after hitem
  split at hread
  · obtain ⟨⟨more, after⟩, hmore, hread⟩ := Option.bind_eq_some_iff.mp hread
    cases hread
    exact ⟨hwell, h.items _ more after hmore⟩
  · cases hread
    exact ⟨hwell, trivial⟩
  · cases hread

theorem ReadsWellFormed.next_entries (h : ReadsWellFormed fuel) {entries : List (String × Value)}
    (hread : readEntries (fuel + 1) text = some (entries, rest)) :
    ∀ entry ∈ entries, entry.2.WellFormed := by
  simp only [readEntries, Option.bind_eq_bind, Option.pure_def] at hread
  split at hread
  · obtain ⟨⟨name, afterName⟩, -, hread⟩ := Option.bind_eq_some_iff.mp hread
    split at hread
    · obtain ⟨⟨value, after⟩, hvalue, hread⟩ := Option.bind_eq_some_iff.mp hread
      have hwell := h.value _ value after hvalue
      split at hread
      · obtain ⟨⟨more, after⟩, hmore, hread⟩ := Option.bind_eq_some_iff.mp hread
        cases hread
        exact List.forall_mem_cons.mpr ⟨hwell, h.entries _ more after hmore⟩
      · cases hread
        simpa using hwell
      · cases hread
    · cases hread
  · cases hread

theorem readsWellFormed (fuel : Nat) : ReadsWellFormed fuel := by
  induction fuel with
  | zero => exact ⟨by simp [readValue], by simp [readItems], by simp [readEntries]⟩
  | succ fuel ih =>
    exact ⟨fun _ _ _ => ih.next_value, fun _ _ _ => ih.next_items, fun _ _ _ => ih.next_entries⟩

/-- Every value that is read from a text is well-formed. -/
theorem wellFormed_of_read? {text : String} {value : Value} (h : read? text = some value) :
    value.WellFormed := by
  simp only [read?, Option.bind_eq_bind, Option.bind_eq_some_iff] at h
  obtain ⟨⟨found, rest⟩, hread, h⟩ := h
  split at h
  · cases h
    exact (readsWellFormed _).value _ found rest hread
  · cases h

end EventPolicy.Json
