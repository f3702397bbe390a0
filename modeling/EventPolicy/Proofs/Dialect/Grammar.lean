import EventPolicy.Proofs.Dialect.Translation
import EventPolicy.Proofs.Text.Segment

/-!
The keys of the dialects, as their grammar has them. A key of the right form
with a value comes to a draft or, in the two dialects that name an event, to the
word that names none, and every other key is malformed. So a word is looked up
only after all else is in order. `Reads`, `Misnames` and `InOrder` say what a key
of the right form says, and `draftOf_eq_ok_iff`, `draftOf_eq_unknownEvent_iff` and
`draftOf_malformed_iff` that the dialects follow them.
-/

namespace EventPolicy

namespace Dialect

/-- A segment that another one follows: it is filled and ends at the first dot. -/
structure Segment (segment : String) : Prop where
  filled : segment ≠ ""
  undotted : '.' ∉ segment.toList

/-- A part between slashes. -/
structure Part (part : String) : Prop where
  filled : part ≠ ""
  unslashed : '/' ∉ part.toList

/-- What stands behind `camelContext.` where all is in order. -/
structure CamelContextForm (remainder value : String) : Prop where
  action : Segment remainder
  words : Text.words value ≠ []

/-- What stands behind `event.` where all is in order, whatever the word names. -/
structure EventForm (remainder value action word bundle : String) : Prop where
  remainder_eq : remainder = Text.join "." [action, word, bundle]
  action : Segment action
  word : Segment word
  bundle : bundle ≠ ""
  value : value ≠ ""

/-- What stands behind `exchange.` where all is in order, whatever the word
names: one to three parts after it, the first of which is a language. -/
structure ExchangeForm (remainder value filter word language : String) (location : List String) :
    Prop where
  remainder_eq : remainder = Text.join "." [filter, word, Text.join "/" (language :: location)]
  filter : Segment filter
  word : Segment word
  parts : ∀ part ∈ language :: location, Part part
  location : location.length ≤ 2
  value : value ≠ ""

/-- What stands behind `endpoint.` where all is in order: one to three parts, the
first of which is an action. -/
structure EndpointForm (remainder value action : String) (location : List String) : Prop where
  remainder_eq : remainder = Text.join "/" (action :: location)
  undotted : '.' ∉ action.toList
  parts : ∀ part ∈ action :: location, Part part
  location : location.length ≤ 2
  value : value ≠ ""

theorem EventForm.remainder_ne_empty {remainder value action word bundle : String}
    (h : EventForm remainder value action word bundle) : remainder ≠ "" := by
  rw [h.remainder_eq]
  simp [Text.join, h.action.filled]

theorem ExchangeForm.remainder_ne_empty {remainder value filter word language : String}
    {location : List String} (h : ExchangeForm remainder value filter word language location) :
    remainder ≠ "" := by
  rw [h.remainder_eq]
  simp [Text.join, h.filter.filled]

theorem pieces_of_segments {remainder first second last : String} (hfirst : Segment first)
    (hsecond : Segment second) (hremainder : remainder = Text.join "." [first, second, last]) :
    Text.pieces remainder '.' 2 = [first, second, last] :=
  (Text.pieces_eq_iff rfl).mpr
    ⟨hremainder, by simp [hfirst.undotted, hsecond.undotted]⟩

theorem segments_of_pieces {remainder first second last : String}
    (hpieces : Text.pieces remainder '.' 2 = [first, second, last]) (hfirst : first ≠ "")
    (hsecond : second ≠ "") :
    remainder = Text.join "." [first, second, last] ∧ Segment first ∧ Segment second := by
  obtain ⟨hjoin, hfree⟩ := (Text.pieces_eq_iff rfl).mp hpieces
  simp only [List.dropLast_cons_cons, List.dropLast_singleton, List.forall_mem_cons] at hfree
  exact ⟨hjoin, ⟨hfirst, hfree.1⟩, ⟨hsecond, hfree.2.1⟩⟩

theorem join_ne_empty {part : String} (hpart : part ≠ "") (location : List String) :
    Text.join "/" (part :: location) ≠ "" := by
  cases location <;> simp [Text.join, hpart]

theorem EndpointForm.remainder_ne_empty {remainder value action : String} {location : List String}
    (h : EndpointForm remainder value action location) : remainder ≠ "" := by
  rw [h.remainder_eq]
  exact join_ne_empty (h.parts action List.mem_cons_self).filled location

/-- The draft that is made for the kind that a word names, if it names one. -/
def ofWord (word : String) (make : EventKind → Draft) : Except DialectError Draft :=
  match EventKind.resolve? word with
  | none => .error (.unknownEvent word)
  | some kind => .ok (make kind)

theorem ofWord_of_some {word : String} {kind : EventKind} (h : EventKind.resolve? word = some kind)
    (make : EventKind → Draft) : ofWord word make = .ok (make kind) := by
  rw [ofWord, h]

theorem ofWord_of_none {word : String} (h : EventKind.resolve? word = none)
    (make : EventKind → Draft) : ofWord word make = .error (.unknownEvent word) := by
  rw [ofWord, h]

theorem camelContext_of_form {remainder value : String} (h : CamelContextForm remainder value)
    (key : String) :
    camelContext key remainder value =
      .ok ⟨actionOf remainder, [.byContexts (Text.words value)]⟩ := by
  rw [camelContext_eq, if_neg h.action.filled, if_neg h.action.undotted, if_neg h.words]

/-- A key behind `camelContext.` that is not malformed has the form of its dialect. -/
theorem camelContext_malformed_or_form (key remainder value : String) :
    (∃ reason, camelContext key remainder value = .error (.malformedKey key reason)) ∨
      CamelContextForm remainder value := by
  rw [camelContext_eq]
  split
  · exact .inl ⟨_, rfl⟩
  · next hremainder =>
    split
    · exact .inl ⟨_, rfl⟩
    · next hdot =>
      split
      · exact .inl ⟨_, rfl⟩
      · next hwords => exact .inr ⟨⟨hremainder, hdot⟩, hwords⟩

theorem event_of_form {remainder value action word bundle : String}
    (h : EventForm remainder value action word bundle) (key : String) :
    event key remainder value = ofWord word fun kind => ⟨actionOf action,
      [.byEvent kind, .byPattern .bundle bundle, .byPattern .context value]⟩ := by
  rw [event_eq, pieces_of_segments h.action h.word h.remainder_eq, ofWord]
  cases hkind : EventKind.resolve? word <;>
    simp [h.action.filled, h.word.filled, h.bundle, h.value, hkind]

/-- A key behind `event.` that is not malformed has the form of its dialect. -/
theorem event_malformed_or_form (key remainder value : String) :
    (∃ reason, event key remainder value = .error (.malformedKey key reason)) ∨
      ∃ action word bundle, EventForm remainder value action word bundle := by
  rw [event_eq]
  split
  · next action word bundle hpieces =>
    split
    · exact .inl ⟨_, rfl⟩
    · next hsegments =>
      simp only [not_or] at hsegments
      obtain ⟨haction, hword, hbundle⟩ := hsegments
      obtain ⟨hremainder, haction, hword⟩ := segments_of_pieces hpieces haction hword
      split
      · exact .inl ⟨_, rfl⟩
      · next hvalue =>
        exact .inr ⟨action, word, bundle, hremainder, haction, hword, hbundle, hvalue⟩
  · exact .inl ⟨_, rfl⟩

theorem parts_of_form (key : String) {language : String} {location : List String}
    (hparts : ∀ part ∈ language :: location, Part part) (hlocation : location.length ≤ 2) :
    parts key (Text.join "/" (language :: location)) 3 = .ok (language :: location) := by
  refine parts_eq_ok_iff.mpr ⟨?_, Nat.succ_le_succ hlocation,
    fun hempty => (hparts "" hempty).filled rfl⟩
  exact (Text.allPieces_eq_iff.mpr
    ⟨List.cons_ne_nil language location, rfl, fun part hpart => (hparts part hpart).unslashed⟩).symm

/-- Parts that were found are those of a form. -/
theorem form_of_parts {key segment first : String} {location : List String}
    (h : parts key segment 3 = .ok (first :: location)) :
    segment = Text.join "/" (first :: location) ∧ (∀ part ∈ first :: location, Part part) ∧
      location.length ≤ 2 := by
  obtain ⟨hfound, hfew, hfilled⟩ := parts_eq_ok_iff.mp h
  obtain ⟨_, hjoin, hfree⟩ := Text.allPieces_eq_iff.mp hfound.symm
  refine ⟨hjoin, ?_, Nat.le_of_succ_le_succ hfew⟩
  exact fun part hpart => ⟨fun hempty => hfilled (hempty ▸ hpart), hfree part hpart⟩

/-- A list of parts has a first one, since even the empty text has a part. -/
theorem parts_ne_nil (key segment : String) (limit : Nat) : parts key segment limit ≠ .ok [] := by
  intro h
  obtain ⟨hfound, _, _⟩ := parts_eq_ok_iff.mp h
  exact (Text.allPieces_eq_iff.mp hfound.symm).1 rfl

theorem exchange_of_form {remainder value filter word language : String} {location : List String}
    (h : ExchangeForm remainder value filter word language location) (key : String) :
    exchange key remainder value = ofWord word fun kind => ⟨.includes,
      .byEvent kind :: .byExpression .exchange language value :: places location⟩ := by
  have hparts := parts_of_form key h.parts h.location
  have hspecification : Text.join "/" (language :: location) ≠ "" :=
    join_ne_empty (h.parts language List.mem_cons_self).filled location
  rw [exchange_eq, pieces_of_segments h.filter h.word h.remainder_eq, ofWord]
  cases hkind : EventKind.resolve? word <;>
    simp [h.filter.filled, h.word.filled, hspecification, hparts, h.value, hkind]

/-- A key behind `exchange.` that is not malformed has the form of its dialect. -/
theorem exchange_malformed_or_form (key remainder value : String) :
    (∃ reason, exchange key remainder value = .error (.malformedKey key reason)) ∨
      ∃ filter word language location,
        ExchangeForm remainder value filter word language location := by
  rw [exchange_eq]
  split
  · next filter word specification hpieces =>
    split
    · exact .inl ⟨_, rfl⟩
    · next hsegments =>
      simp only [not_or] at hsegments
      obtain ⟨hfilter, hword, _⟩ := hsegments
      obtain ⟨hremainder, hfilter, hword⟩ := segments_of_pieces hpieces hfilter hword
      split
      · next error herror =>
        obtain ⟨reason, rfl⟩ := parts_error herror
        exact .inl ⟨reason, rfl⟩
      · next hnone => exact (parts_ne_nil key specification 3 hnone).elim
      · next language location hparts =>
        split
        · exact .inl ⟨_, rfl⟩
        · next hvalue =>
          obtain ⟨hjoin, hfilled, hfew⟩ := form_of_parts hparts
          refine .inr ⟨filter, word, language, location, ?_⟩
          exact ⟨by rw [hremainder, hjoin], hfilter, hword, hfilled, hfew, hvalue⟩
  · exact .inl ⟨_, rfl⟩

theorem endpoint_of_form {remainder value action : String} {location : List String}
    (h : EndpointForm remainder value action location) (key : String) :
    endpoint key remainder value =
      .ok ⟨actionOf action, .byPattern .endpoint value :: places location⟩ := by
  have hparts : parts key remainder 3 = .ok (action :: location) := by
    rw [h.remainder_eq]
    exact parts_of_form key h.parts h.location
  rw [endpoint_eq, if_neg h.remainder_ne_empty, hparts]
  simp [h.undotted, h.value]

/-- A key behind `endpoint.` that is not malformed has the form of its dialect. -/
theorem endpoint_malformed_or_form (key remainder value : String) :
    (∃ reason, endpoint key remainder value = .error (.malformedKey key reason)) ∨
      ∃ action location, EndpointForm remainder value action location := by
  rw [endpoint_eq]
  split
  · exact .inl ⟨_, rfl⟩
  · split
    · next error herror =>
      obtain ⟨reason, rfl⟩ := parts_error herror
      exact .inl ⟨reason, rfl⟩
    · next hnone => exact (parts_ne_nil key remainder 3 hnone).elim
    · next action location hparts =>
      split
      · exact .inl ⟨_, rfl⟩
      · next hdot =>
        split
        · exact .inl ⟨_, rfl⟩
        · next hvalue =>
          obtain ⟨hjoin, hfilled, hfew⟩ := form_of_parts hparts
          exact .inr ⟨action, location, hjoin, hdot, hfilled, hfew, hvalue⟩

/-- What a key of the right form says: the draft that its dialect reads from it. -/
inductive Reads (remainder value : String) : Qualifier → Draft → Prop
  | camelContext (hform : CamelContextForm remainder value) :
      Reads remainder value .camelContext
        ⟨actionOf remainder, [.byContexts (Text.words value)]⟩
  | event {action word bundle : String} {kind : EventKind}
      (hform : EventForm remainder value action word bundle)
      (hkind : EventKind.resolve? word = some kind) :
      Reads remainder value .event ⟨actionOf action,
        [.byEvent kind, .byPattern .bundle bundle, .byPattern .context value]⟩
  | exchange {filter word language : String} {location : List String} {kind : EventKind}
      (hform : ExchangeForm remainder value filter word language location)
      (hkind : EventKind.resolve? word = some kind) :
      Reads remainder value .exchange ⟨.includes,
        .byEvent kind :: .byExpression .exchange language value :: places location⟩
  | endpoint {action : String} {location : List String}
      (hform : EndpointForm remainder value action location) :
      Reads remainder value .endpoint
        ⟨actionOf action, .byPattern .endpoint value :: places location⟩

/-- What a key says in which all is in order but for a word that names no event. -/
inductive Misnames (remainder value : String) : Qualifier → String → Prop
  | event {action word bundle : String} (hform : EventForm remainder value action word bundle)
      (hunknown : EventKind.resolve? word = none) : Misnames remainder value .event word
  | exchange {filter word language : String} {location : List String}
      (hform : ExchangeForm remainder value filter word language location)
      (hunknown : EventKind.resolve? word = none) : Misnames remainder value .exchange word

/-- What stands behind a qualifier has the form of its dialect, whatever its word
for an event names. -/
def InOrder (remainder value : String) : Qualifier → Prop
  | .camelContext => CamelContextForm remainder value
  | .event => ∃ action word bundle, EventForm remainder value action word bundle
  | .exchange =>
    ∃ filter word language location, ExchangeForm remainder value filter word language location
  | .endpoint => ∃ action location, EndpointForm remainder value action location

section

variable {qualifier : Qualifier} {key remainder value word : String} {draft : Draft}

theorem Reads.inOrder (h : Reads remainder value qualifier draft) :
    InOrder remainder value qualifier := by
  cases h with
  | camelContext hform => exact hform
  | event hform => exact ⟨_, _, _, hform⟩
  | exchange hform => exact ⟨_, _, _, _, hform⟩
  | endpoint hform => exact ⟨_, _, hform⟩

theorem Misnames.inOrder (h : Misnames remainder value qualifier word) :
    InOrder remainder value qualifier := by
  cases h with
  | event hform => exact ⟨_, _, _, hform⟩
  | exchange hform => exact ⟨_, _, _, _, hform⟩

theorem InOrder.remainder_ne_empty (h : InOrder remainder value qualifier) : remainder ≠ "" := by
  cases qualifier with
  | camelContext => exact h.action.filled
  | event =>
    obtain ⟨_, _, _, hform⟩ := h
    exact hform.remainder_ne_empty
  | exchange =>
    obtain ⟨_, _, _, _, hform⟩ := h
    exact hform.remainder_ne_empty
  | endpoint =>
    obtain ⟨_, _, hform⟩ := h
    exact hform.remainder_ne_empty

/-- Where all is in order, only the word for an event is left to decide. -/
theorem InOrder.reads_or_misnames (h : InOrder remainder value qualifier) :
    (∃ draft, Reads remainder value qualifier draft) ∨
      ∃ word, Misnames remainder value qualifier word := by
  cases qualifier with
  | camelContext => exact .inl ⟨_, .camelContext h⟩
  | event =>
    obtain ⟨action, word, bundle, hform⟩ := h
    cases hkind : EventKind.resolve? word with
    | none => exact .inr ⟨word, .event hform hkind⟩
    | some kind => exact .inl ⟨_, .event hform hkind⟩
  | exchange =>
    obtain ⟨filter, word, language, location, hform⟩ := h
    cases hkind : EventKind.resolve? word with
    | none => exact .inr ⟨word, .exchange hform hkind⟩
    | some kind => exact .inl ⟨_, .exchange hform hkind⟩
  | endpoint =>
    obtain ⟨action, location, hform⟩ := h
    exact .inl ⟨_, .endpoint hform⟩

theorem malformed_or_inOrder (qualifier : Qualifier) (key remainder value : String) :
    (∃ reason, draftOf qualifier key remainder value = .error (.malformedKey key reason)) ∨
      InOrder remainder value qualifier := by
  cases qualifier with
  | camelContext => exact camelContext_malformed_or_form key remainder value
  | event => exact event_malformed_or_form key remainder value
  | exchange => exact exchange_malformed_or_form key remainder value
  | endpoint => exact endpoint_malformed_or_form key remainder value

/-- What a key says is what its dialect reads. -/
theorem draftOf_of_reads (h : Reads remainder value qualifier draft) (key : String) :
    draftOf qualifier key remainder value = .ok draft := by
  cases h with
  | camelContext hform => exact camelContext_of_form hform key
  | event hform hkind => rw [draftOf, event_of_form hform key, ofWord_of_some hkind]
  | exchange hform hkind => rw [draftOf, exchange_of_form hform key, ofWord_of_some hkind]
  | endpoint hform => exact endpoint_of_form hform key

theorem draftOf_of_misnames (h : Misnames remainder value qualifier word) (key : String) :
    draftOf qualifier key remainder value = .error (.unknownEvent word) := by
  cases h with
  | event hform hunknown => rw [draftOf, event_of_form hform key, ofWord_of_none hunknown]
  | exchange hform hunknown => rw [draftOf, exchange_of_form hform key, ofWord_of_none hunknown]

/-- Every key is read, malformed or refused for its word alone. -/
theorem draftOf_verdict (qualifier : Qualifier) (key remainder value : String) :
    (∃ draft, draftOf qualifier key remainder value = .ok draft ∧
        Reads remainder value qualifier draft) ∨
      (∃ reason, draftOf qualifier key remainder value = .error (.malformedKey key reason)) ∨
      ∃ word, draftOf qualifier key remainder value = .error (.unknownEvent word) ∧
        Misnames remainder value qualifier word := by
  rcases malformed_or_inOrder qualifier key remainder value with hmalformed | horder
  · exact .inr (.inl hmalformed)
  · rcases horder.reads_or_misnames with ⟨draft, hreads⟩ | ⟨word, hmisnames⟩
    · exact .inl ⟨draft, draftOf_of_reads hreads key, hreads⟩
    · exact .inr (.inr ⟨word, draftOf_of_misnames hmisnames key, hmisnames⟩)

/-- A dialect reads exactly what a key says. -/
theorem draftOf_eq_ok_iff :
    draftOf qualifier key remainder value = .ok draft ↔ Reads remainder value qualifier draft := by
  refine ⟨fun h => ?_, fun h => draftOf_of_reads h key⟩
  rcases draftOf_verdict qualifier key remainder value with
    ⟨other, hother, hreads⟩ | ⟨reason, hmalformed⟩ | ⟨word, hunknown, _⟩
  · cases hother.symm.trans h
    exact hreads
  · cases hmalformed.symm.trans h
  · cases hunknown.symm.trans h

/-- A dialect tells an unknown event only of a key without any other fault. -/
theorem draftOf_eq_unknownEvent_iff :
    draftOf qualifier key remainder value = .error (.unknownEvent word) ↔
      Misnames remainder value qualifier word := by
  refine ⟨fun h => ?_, fun h => draftOf_of_misnames h key⟩
  rcases draftOf_verdict qualifier key remainder value with
    ⟨draft, hdraft, _⟩ | ⟨reason, hmalformed⟩ | ⟨other, hother, hmisnames⟩
  · cases hdraft.symm.trans h
  · cases hmalformed.symm.trans h
  · cases hother.symm.trans h
    exact hmisnames

/-- A key is malformed exactly if it does not have the form of its dialect. -/
theorem draftOf_malformed_iff :
    (∃ reason, draftOf qualifier key remainder value = .error (.malformedKey key reason)) ↔
      ¬ InOrder remainder value qualifier := by
  constructor
  · rintro ⟨reason, hmalformed⟩ horder
    rcases horder.reads_or_misnames with ⟨draft, hreads⟩ | ⟨word, hmisnames⟩
    · cases (draftOf_of_reads hreads key).symm.trans hmalformed
    · cases (draftOf_of_misnames hmisnames key).symm.trans hmalformed
  · exact (malformed_or_inOrder qualifier key remainder value).resolve_right

/-- A word of a form stands in the text behind the qualifier. -/
theorem infix_of_segments (first word last : String) :
    word.toList <:+: (Text.join "." [first, word, last]).toList := by
  rw [Text.toList_join]
  exact ⟨first.toList ++ ['.'], '.' :: last.toList, by simp [List.intercalate_cons_cons]⟩

theorem infix_of_misnames (h : Misnames remainder value qualifier word) :
    word.toList <:+: remainder.toList := by
  cases h with
  | event hform =>
    rw [hform.remainder_eq]
    exact infix_of_segments _ _ _
  | exchange hform =>
    rw [hform.remainder_eq]
    exact infix_of_segments _ _ _

/-- Every key is read, malformed or refused for a word that stands in it and
names no event. -/
theorem draftOf_cases (qualifier : Qualifier) (key remainder value : String) :
    (∃ draft, draftOf qualifier key remainder value = .ok draft ∧
        Reads remainder value qualifier draft) ∨
      (∃ reason, draftOf qualifier key remainder value = .error (.malformedKey key reason)) ∨
      ∃ word, draftOf qualifier key remainder value = .error (.unknownEvent word) ∧
        word.toList <:+: remainder.toList := by
  rcases draftOf_verdict qualifier key remainder value with
    hread | hmalformed | ⟨word, hunknown, hmisnames⟩
  · exact .inl hread
  · exact .inr (.inl hmalformed)
  · exact .inr (.inr ⟨word, hunknown, infix_of_misnames hmisnames⟩)

/-- A draft says what its key says. -/
theorem reads_of_draftOf (h : draftOf qualifier key remainder value = .ok draft) :
    Reads remainder value qualifier draft :=
  draftOf_eq_ok_iff.mp h

end

end Dialect

end EventPolicy
