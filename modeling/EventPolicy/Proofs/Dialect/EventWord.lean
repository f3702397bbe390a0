import EventPolicy.Dialect
import Mathlib.Data.List.Infix

/-!
The words that name kinds of events. A word names the kind whose name it is in
capitals. Within ASCII that is the name in any case of letters. Outside ASCII two
characters are written in capitals as a letter of a name, and two ligatures as the `ST`
that names have in them; with one of these a word can name a kind as well, even if it is
shorter than the name. No other character outside ASCII stands in such a word.
-/

namespace EventPolicy

namespace Text

theorem toNat_lt_of_isUpper {letter : Char} (h : letter.isUpper = true) : letter.toNat < 128 := by
  have hlast : letter.val ≤ 'Z'.val := (of_decide_eq_true h).2
  exact Nat.lt_of_le_of_lt (UInt32.le_iff_toNat_le.mp hlast) (by decide)

/-- A character with a capital letter of ASCII as its upper case is in ASCII too. -/
theorem toNat_lt_of_isUpper_toUpper {c : Char} (h : c.toUpper.isUpper = true) :
    c.toNat < 128 := by
  by_cases hsmall : 'a'.val ≤ c.val ∧ c.val ≤ 'z'.val
  · exact Nat.lt_of_le_of_lt (UInt32.le_iff_toNat_le.mp hsmall.2) (by decide)
  · have hsame : c.toUpper = c := dif_neg hsmall
    exact toNat_lt_of_isUpper (hsame ▸ h)

theorem capitals_of_ascii {c : Char} (hc : c.toNat < 128) : capitals c = some [c.toUpper] := by
  have hall : ∀ n < 128, capitals (Char.ofNat n) = some [(Char.ofNat n).toUpper] := by decide
  simpa using hall c.toNat hc

/-- The characters whose capitals are plain ASCII are those in ASCII and the listed ones. -/
theorem capitals_eq_some_iff {c : Char} {form : List Char} :
    capitals c = some form ↔
      (c.toNat < 128 ∧ form = [c.toUpper]) ∨ (c, form) ∈ asciiCapitalForms := by
  have hlisted : ∀ entry ∈ asciiCapitalForms, capitals entry.1 = some entry.2 := by decide
  constructor
  · intro h
    by_cases hc : c.toNat < 128
    · rw [capitals_of_ascii hc] at h
      exact .inl ⟨hc, (Option.some.inj h).symm⟩
    · rw [capitals, if_neg hc] at h
      obtain ⟨entry, hfound, rfl⟩ := Option.map_eq_some_iff.mp h
      obtain rfl : entry.1 = c := by simpa using List.find?_some hfound
      exact .inr (List.mem_of_find?_eq_some hfound)
  · rintro (⟨hc, rfl⟩ | hentry)
    · exact capitals_of_ascii hc
    · exact hlisted (c, form) hentry

theorem capitalsOf_cons_eq_some_iff {c : Char} {rest name : List Char} :
    capitalsOf (c :: rest) = some name ↔
      ∃ form others, capitals c = some form ∧ capitalsOf rest = some others ∧
        form ++ others = name := by
  simp [capitalsOf, Option.bind_eq_some_iff]

end Text

namespace EventKind

/-- A word that is written in capitals as a name: letter by letter in either case of
ASCII, or with one of the other characters whose capitals the name has. -/
inductive Spells : List Char → List Char → Prop
  | nil : Spells [] []
  | letter {c letter : Char} {word name : List Char} (hletter : c.toUpper = letter)
      (hrest : Spells word name) : Spells (c :: word) (letter :: name)
  | longS {word name : List Char} (hrest : Spells word name) : Spells ('ſ' :: word) ('S' :: name)
  | dotlessI {word name : List Char} (hrest : Spells word name) :
      Spells ('ı' :: word) ('I' :: name)
  | ligature {c : Char} {word name : List Char} (hc : c = 'ﬅ' ∨ c = 'ﬆ')
      (hrest : Spells word name) : Spells (c :: word) ('S' :: 'T' :: name)

/-- The characters outside ASCII that can stand in a word for letters of a name. -/
def foreignLetters : List Char := ['ſ', 'ı', 'ﬅ', 'ﬆ']

/-- A name of capital letters of which no two together are the capitals of one
character, apart from `ST`. -/
structure PlainName (name : List Char) : Prop where
  letters : ∀ letter ∈ name, letter.isUpper = true
  apart : ∀ pair ∈ [['S', 'S'], ['F', 'F'], ['F', 'I'], ['F', 'L']], ¬ pair <:+: name

theorem plainName (kind : EventKind) : PlainName kind.name.toList where
  letters := List.all_eq_true.mp (by cases kind <;> decide)
  apart := by cases kind <;> decide

theorem PlainName.of_append (before : List Char) {rest : List Char}
    (h : PlainName (before ++ rest)) : PlainName rest where
  letters letter hletter := h.letters letter (List.mem_append_right before hletter)
  apart pair hpair hpart :=
    h.apart pair hpair (hpart.trans (List.suffix_append before rest).isInfix)

theorem PlainName.not_pair {first second : Char} {others : List Char}
    (h : PlainName (first :: second :: others)) :
    [first, second] ∉ [['S', 'S'], ['F', 'F'], ['F', 'I'], ['F', 'L']] := fun hpair =>
  h.apart _ hpair (List.prefix_append [first, second] others).isInfix

open Text

theorem spells_of_capitalsOf {word name : List Char} (hname : PlainName name)
    (h : capitalsOf word = some name) : Spells word name := by
  induction word generalizing name with
  | nil =>
    obtain rfl := Option.some.inj h
    exact .nil
  | cons c rest ih =>
    obtain ⟨form, others, hform, hothers, rfl⟩ := capitalsOf_cons_eq_some_iff.mp h
    have hrest := ih (hname.of_append form) hothers
    rcases capitals_eq_some_iff.mp hform with ⟨_, rfl⟩ | hentry
    · exact .letter rfl hrest
    · -- Of the listed characters only four have capitals that a name has.
      simp only [asciiCapitalForms, List.mem_cons, Prod.mk.injEq, List.not_mem_nil,
        or_false] at hentry
      rcases hentry with ⟨rfl, rfl⟩ | ⟨rfl, rfl⟩ | ⟨rfl, rfl⟩ | ⟨rfl, rfl⟩ | ⟨rfl, rfl⟩ |
        ⟨rfl, rfl⟩ | ⟨rfl, rfl⟩ | ⟨rfl, rfl⟩ | ⟨rfl, rfl⟩ | ⟨rfl, rfl⟩
      · exact (hname.not_pair (by simp)).elim
      · exact .dotlessI hrest
      · exact .longS hrest
      · exact (hname.not_pair (by simp)).elim
      · exact (hname.not_pair (by simp)).elim
      · exact (hname.not_pair (by simp)).elim
      · exact (hname.not_pair (by simp)).elim
      · exact (hname.not_pair (by simp)).elim
      · exact .ligature (.inl rfl) hrest
      · exact .ligature (.inr rfl) hrest

theorem capitalsOf_of_spells {word name : List Char} (hname : PlainName name)
    (h : Spells word name) : capitalsOf word = some name := by
  induction h with
  | nil => rfl
  | @letter c letter word name hletter hrest ih =>
    have hupper : c.toUpper.isUpper = true := hletter ▸ hname.letters letter List.mem_cons_self
    have hcapital := capitals_of_ascii (toNat_lt_of_isUpper_toUpper hupper)
    have hothers := ih (hname.of_append [letter])
    exact capitalsOf_cons_eq_some_iff.mpr ⟨_, name, hcapital, hothers, by rw [hletter]; rfl⟩
  | @longS word name hrest ih =>
    have hothers := ih (hname.of_append ['S'])
    exact capitalsOf_cons_eq_some_iff.mpr ⟨['S'], name, rfl, hothers, rfl⟩
  | @dotlessI word name hrest ih =>
    have hothers := ih (hname.of_append ['I'])
    exact capitalsOf_cons_eq_some_iff.mpr ⟨['I'], name, rfl, hothers, rfl⟩
  | @ligature c word name hc hrest ih =>
    have hothers := ih (hname.of_append ['S', 'T'])
    have hcapitals : capitals c = some ['S', 'T'] := by
      rcases hc with rfl | rfl <;> rfl
    exact capitalsOf_cons_eq_some_iff.mpr ⟨_, name, hcapitals, hothers, rfl⟩

/-- A word names the kind whose name it spells. -/
theorem resolve?_eq_some_iff_spells {word : String} {kind : EventKind} :
    resolve? word = some kind ↔ Spells word.toList kind.name.toList := by
  rw [resolve?_eq_some_iff, asciiUpper?, Option.map_eq_some_iff]
  constructor
  · rintro ⟨upper, hupper, hname⟩
    rw [← hname, String.toList_ofList]
    refine spells_of_capitalsOf ?_ hupper
    rw [← String.toList_ofList (l := upper), hname]
    exact kind.plainName
  · intro h
    exact ⟨_, capitalsOf_of_spells kind.plainName h, String.ofList_toList⟩

theorem spells_map_toUpper (word : List Char) : Spells word (word.map Char.toUpper) := by
  induction word with
  | nil => exact .nil
  | cons c rest ih => exact .letter rfl ih

/-- Without the foreign letters a word spells what it is but for case in ASCII. -/
theorem spells_iff_of_native {word name : List Char} (hword : ∀ c ∈ word, c ∉ foreignLetters) :
    Spells word name ↔ word.map Char.toUpper = name := by
  refine ⟨fun h => ?_, fun h => h ▸ spells_map_toUpper word⟩
  induction h with
  | nil => rfl
  | letter hletter hrest ih =>
    obtain ⟨-, hothers⟩ := List.forall_mem_cons.mp hword
    rw [List.map_cons, hletter, ih hothers]
  | longS | dotlessI => exact (hword _ List.mem_cons_self (by decide)).elim
  | ligature hc =>
    rcases hc with rfl | rfl <;> exact (hword _ List.mem_cons_self (by decide)).elim

end EventKind

namespace Dialect

open EventKind

theorem eventOf_eq_ok_iff {word : String} {kind : EventKind} :
    eventOf word = .ok kind ↔ Spells word.toList kind.name.toList := by
  rw [← resolve?_eq_some_iff_spells, eventOf]
  cases resolve? word <;> simp

/-- A word is taken for the kind whose name it spells, and a word that spells no name is
refused as it is written. A word without the foreign letters is taken for a kind exactly
when it is the name of the kind but for letter case in ASCII. -/
theorem eventOf_spelled (word : String) :
    (∀ kind : EventKind, eventOf word = .ok kind ↔ Spells word.toList kind.name.toList) ∧
    ((∀ kind : EventKind, ¬ Spells word.toList kind.name.toList) →
      eventOf word = .error (.unknownEvent word)) ∧
    ((∀ c ∈ word.toList, c ∉ foreignLetters) → ∀ kind : EventKind,
      eventOf word = .ok kind ↔ word.toList.map Char.toUpper = kind.name.toList) := by
  refine ⟨fun kind => eventOf_eq_ok_iff, fun hnone => ?_, fun hnative kind => ?_⟩
  · rw [eventOf]
    cases hfound : resolve? word with
    | none => rfl
    | some kind => exact (hnone kind (resolve?_eq_some_iff_spells.mp hfound)).elim
  · rw [eventOf_eq_ok_iff, spells_iff_of_native hnative]

/-- A long s makes a word name a kind whose name it is not but for letter case in ASCII. -/
theorem not_eventOf_by_ascii_case :
    ¬ ∀ (word : String) (kind : EventKind), eventOf word = .ok kind ↔
      word.length = kind.name.length ∧ word.toList.map Char.toUpper = kind.name.toList := by
  intro hnative
  have htaken : eventOf "routeſtart" = .ok .routeStart := by decide
  have hsame := ((hnative _ _).mp htaken).2
  revert hsame
  decide

end Dialect

end EventPolicy
