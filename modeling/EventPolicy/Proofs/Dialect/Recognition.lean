import EventPolicy.Proofs.Dialect.Outcome
import EventPolicy.Proofs.Text.Words

/-!
What each dialect recognises. For every key, remainder and value these theorems
name the one outcome: the policy, with all that is in it, the word that names no
event, or a malformed key. A key is told to be malformed before its word is
looked up, so a word is refused only where nothing else is at fault.
-/

namespace EventPolicy

theorem EventKind.resolve?_eq_none_iff {word : String} :
    resolve? word = none ↔ ∀ kind : EventKind, Text.asciiUpper? word ≠ some kind.name := by
  rw [Option.eq_none_iff_forall_ne_some]
  exact forall_congr' fun kind => not_congr resolve?_eq_some_iff

namespace Dialect

/-- A word excludes exactly if it is `exclude` in some letter case. -/
theorem eq_actionOf_iff {word : String} {action : Action} :
    action = actionOf word ↔ (action = .excludes ↔ Text.lower word = "exclude") := by
  by_cases hword : Text.lower word = "exclude"
  · simp [actionOf, Action.spelling, hword]
  · cases action <;> simp [actionOf, Action.spelling, hword]

/-- The parts of a location are a bundle and then a context, as far as they go. -/
theorem places_eq_zipWith (location : List String) :
    places location = List.zipWith Scope.byPattern [.bundle, .context] location := by
  match location with
  | [] | [_] | _ :: _ :: _ => rfl

/-- Behind `event.` stand an action, the word for an event and a bundle, parted by
dots, and only the bundle may have dots of its own. With a value that is filled
such a key comes to the policy of the event, the bundle and the context in the
value, or its word is refused; every other key is malformed, whatever its word is. -/
theorem event_recognises (key remainder value : String) :
    (∀ policy, policyOf .event key remainder value = .ok policy ↔
      ∃ action word bundle, ∃ kind : EventKind, EventForm remainder value action word bundle ∧
        Text.asciiUpper? word = some kind.name ∧
        (policy.action = .excludes ↔ Text.lower action = "exclude") ∧
        policy.scopes = [.byEvent kind, .byPattern .bundle bundle, .byPattern .context value] ∧
        policy.sourceKey = some key) ∧
    (∀ word, policyOf .event key remainder value = .error (.unknownEvent word) ↔
      ∃ action bundle, EventForm remainder value action word bundle ∧
        ∀ kind : EventKind, Text.asciiUpper? word ≠ some kind.name) ∧
    ((∃ reason, policyOf .event key remainder value = .error (.malformedKey key reason)) ↔
      ¬ ∃ action word bundle, EventForm remainder value action word bundle) := by
  refine ⟨fun policy => ?_, fun word => ?_, policyOf_malformed_iff⟩
  · rw [policyOf_eq_ok_iff_reads]
    constructor
    · rintro ⟨hreads, hkey⟩
      obtain ⟨action, scopes, sourceKey⟩ := policy
      cases hreads with
      | event hform hkind =>
        exact ⟨_, _, _, _, hform, EventKind.resolve?_eq_some_iff.mp hkind,
          eq_actionOf_iff.mp rfl, rfl, hkey⟩
    · rintro ⟨action, word, bundle, kind, hform, hkind, haction, hscopes, hkey⟩
      rw [eq_actionOf_iff.mpr haction, hscopes]
      exact ⟨.event hform (EventKind.resolve?_eq_some_iff.mpr hkind), hkey⟩
  · rw [policyOf_eq_unknownEvent_iff]
    constructor
    · intro hmisnames
      cases hmisnames with
      | event hform hunknown => exact ⟨_, _, hform, EventKind.resolve?_eq_none_iff.mp hunknown⟩
    · rintro ⟨action, bundle, hform, hunknown⟩
      exact .event hform (EventKind.resolve?_eq_none_iff.mpr hunknown)

/-- Behind `exchange.` stand any segment, the word for an event and one to three
parts between slashes: a language, a bundle and a context. Such a key includes,
whatever its first segment says. -/
theorem exchange_recognises (key remainder value : String) :
    (∀ policy, policyOf .exchange key remainder value = .ok policy ↔
      ∃ filter word language location, ∃ kind : EventKind,
        ExchangeForm remainder value filter word language location ∧
        Text.asciiUpper? word = some kind.name ∧
        policy.action = .includes ∧
        policy.scopes = .byEvent kind :: .byExpression .exchange language value ::
          List.zipWith .byPattern [.bundle, .context] location ∧
        policy.sourceKey = some key) ∧
    (∀ word, policyOf .exchange key remainder value = .error (.unknownEvent word) ↔
      ∃ filter language location, ExchangeForm remainder value filter word language location ∧
        ∀ kind : EventKind, Text.asciiUpper? word ≠ some kind.name) ∧
    ((∃ reason, policyOf .exchange key remainder value = .error (.malformedKey key reason)) ↔
      ¬ ∃ filter word language location,
        ExchangeForm remainder value filter word language location) := by
  refine ⟨fun policy => ?_, fun word => ?_, policyOf_malformed_iff⟩
  · rw [policyOf_eq_ok_iff_reads]
    constructor
    · rintro ⟨hreads, hkey⟩
      obtain ⟨action, scopes, sourceKey⟩ := policy
      cases hreads with
      | @exchange filter word language location kind hform hkind =>
        exact ⟨filter, word, language, location, kind, hform,
          EventKind.resolve?_eq_some_iff.mp hkind, rfl,
          by rw [places_eq_zipWith], hkey⟩
    · rintro ⟨filter, word, language, location, kind, hform, hkind, haction, hscopes, hkey⟩
      rw [haction, hscopes, ← places_eq_zipWith]
      exact ⟨.exchange hform (EventKind.resolve?_eq_some_iff.mpr hkind), hkey⟩
  · rw [policyOf_eq_unknownEvent_iff]
    constructor
    · intro hmisnames
      cases hmisnames with
      | exchange hform hunknown =>
        exact ⟨_, _, _, hform, EventKind.resolve?_eq_none_iff.mp hunknown⟩
    · rintro ⟨filter, language, location, hform, hunknown⟩
      exact .exchange hform (EventKind.resolve?_eq_none_iff.mpr hunknown)

/-- Behind `endpoint.` stand one to three parts between slashes: an action, which
alone may not have dots, a bundle and a context. Every key of this form comes to a
policy if its value is filled, and malformed keys are its only errors. -/
theorem endpoint_recognises (key remainder value : String) :
    (∀ policy, policyOf .endpoint key remainder value = .ok policy ↔
      ∃ action location, EndpointForm remainder value action location ∧
        (policy.action = .excludes ↔ Text.lower action = "exclude") ∧
        policy.scopes = .byPattern .endpoint value ::
          List.zipWith .byPattern [.bundle, .context] location ∧
        policy.sourceKey = some key) ∧
    ((∃ reason, policyOf .endpoint key remainder value = .error (.malformedKey key reason)) ↔
      ¬ ∃ action location, EndpointForm remainder value action location) ∧
    ∀ error, policyOf .endpoint key remainder value = .error error →
      ∃ reason, error = .malformedKey key reason := by
  refine ⟨fun policy => ?_, policyOf_malformed_iff, fun error herror => ?_⟩
  · rw [policyOf_eq_ok_iff_reads]
    constructor
    · rintro ⟨hreads, hkey⟩
      obtain ⟨action, scopes, sourceKey⟩ := policy
      cases hreads with
      | @endpoint first location hform =>
        exact ⟨first, location, hform, eq_actionOf_iff.mp rfl, by rw [places_eq_zipWith], hkey⟩
    · rintro ⟨action, location, hform, haction, hscopes, hkey⟩
      rw [eq_actionOf_iff.mpr haction, hscopes, ← places_eq_zipWith]
      exact ⟨.endpoint hform, hkey⟩
  · rcases policyOf_error_cases herror with hmalformed | ⟨word, _, hmisnames⟩
    · exact hmalformed
    · cases hmisnames

theorem camelContextForm_iff {remainder value : String} :
    CamelContextForm remainder value ↔
      Segment remainder ∧ ∃ c ∈ value.toList, Text.isBlank c = false := by
  rw [← Text.words_ne_nil_iff]
  exact ⟨fun h => ⟨h.action, h.words⟩, fun h => ⟨h.1, h.2⟩⟩

theorem eq_ofList_words_iff {value : String} {patterns : ValueSet} :
    patterns = ValueSet.ofList (Text.words value) ↔
      ∀ pattern, pattern ∈ patterns.toList ↔ Text.MaximalRun value.toList pattern.toList := by
  simp only [← Text.mem_words_iff]
  constructor
  · rintro rfl pattern
    exact ValueSet.mem_ofList
  · intro h
    refine ValueSet.ext fun pattern => ?_
    rw [h pattern, ValueSet.mem_ofList]

/-- How often and in which order its words stand in a value is not seen. -/
theorem camelContext_congr {value text : String}
    (hwords : ∀ word, word ∈ Text.words value ↔ word ∈ Text.words text) (key remainder : String) :
    camelContext key remainder value = camelContext key remainder text := by
  have hempty : Text.words value = [] ↔ Text.words text = [] := by
    simp only [List.eq_nil_iff_forall_not_mem, hwords]
  simp only [camelContext_eq, hempty, Scope.byContexts_eq_iff.mpr hwords]

/-- The policy of a key behind `camelContext.` holds the maximal runs of its value. -/
theorem policyOf_camelContext_eq_ok_iff {key remainder value : String} {policy : Policy} :
    policyOf .camelContext key remainder value = .ok policy ↔
      Segment remainder ∧ (∃ c ∈ value.toList, Text.isBlank c = false) ∧
        (policy.action = .excludes ↔ Text.lower remainder = "exclude") ∧
        (∃ patterns : ValueSet, policy.scopes = [⟨.context, .severalValues, patterns, none, none⟩] ∧
          ∀ pattern, pattern ∈ patterns.toList ↔
            Text.MaximalRun value.toList pattern.toList) ∧
        policy.sourceKey = some key := by
  rw [policyOf_eq_ok_iff_reads]
  constructor
  · rintro ⟨hreads, hkey⟩
    obtain ⟨action, scopes, sourceKey⟩ := policy
    cases hreads with
    | camelContext hform =>
      obtain ⟨haction, hfilled⟩ := camelContextForm_iff.mp hform
      exact ⟨haction, hfilled, eq_actionOf_iff.mp rfl, ⟨_, rfl, eq_ofList_words_iff.mp rfl⟩, hkey⟩
  · rintro ⟨hremainder, hfilled, haction, ⟨patterns, hscopes, hpatterns⟩, hkey⟩
    rw [eq_actionOf_iff.mpr haction, hscopes, eq_ofList_words_iff.mpr hpatterns]
    exact ⟨.camelContext (camelContextForm_iff.mpr ⟨hremainder, hfilled⟩), hkey⟩

/-- Behind `camelContext.` stands an action without dots, and the value has a
character that is no blank. Such a key comes to one scope, whose context patterns
are the maximal runs without blanks in the value. So values of the same patterns
come to the same, however these are ordered, repeated and spaced. -/
theorem camelContext_recognises (key remainder value : String) :
    (∀ policy, policyOf .camelContext key remainder value = .ok policy ↔
      Segment remainder ∧ (∃ c ∈ value.toList, Text.isBlank c = false) ∧
        (policy.action = .excludes ↔ Text.lower remainder = "exclude") ∧
        (∃ patterns : ValueSet, policy.scopes = [⟨.context, .severalValues, patterns, none, none⟩] ∧
          ∀ pattern, pattern ∈ patterns.toList ↔
            Text.MaximalRun value.toList pattern.toList) ∧
        policy.sourceKey = some key) ∧
    ((∃ reason, policyOf .camelContext key remainder value = .error (.malformedKey key reason)) ↔
      ¬ (Segment remainder ∧ ∃ c ∈ value.toList, Text.isBlank c = false)) ∧
    (∀ policy, policyOf .camelContext key remainder value = .ok policy →
      ∀ scope ∈ policy.scopes, ∀ pattern ∈ scope.values.toList, Text.Unbroken pattern.toList) ∧
    ∀ (text : String) (patterns others : List String),
      Text.Spaced (patterns.map String.toList) value.toList →
      Text.Spaced (others.map String.toList) text.toList →
      (∀ pattern, pattern ∈ patterns ↔ pattern ∈ others) →
      policyOf .camelContext key remainder value = policyOf .camelContext key remainder text := by
  refine ⟨fun policy => policyOf_camelContext_eq_ok_iff, ?_, ?_, ?_⟩
  · rw [← camelContextForm_iff]
    exact policyOf_malformed_iff
  · intro policy hpolicy scope hscope pattern hpattern
    obtain ⟨-, -, -, ⟨patterns, hscopes, hruns⟩, -⟩ := policyOf_camelContext_eq_ok_iff.mp hpolicy
    rw [hscopes, List.mem_singleton] at hscope
    subst hscope
    exact ((hruns pattern).mp hpattern).1
  · intro text patterns others hvalue htext hsame
    have hfound : Text.words value = patterns := Text.words_eq_iff.mpr hvalue
    have hother : Text.words text = others := Text.words_eq_iff.mpr htext
    have hwords : ∀ word, word ∈ Text.words value ↔ word ∈ Text.words text := by
      rw [hfound, hother]
      exact hsame
    rw [policyOf, policyOf, draftOf, camelContext_congr hwords]

/-- Two patterns in another order, one of them twice and with wider blanks, make
the same policy. -/
theorem camelContext_recognises_of_respaced :
    Text.Spaced (["orders-*", "audit"].map String.toList) "orders-* audit".toList ∧
      Text.Spaced (["audit", "orders-*", "audit"].map String.toList)
        "\taudit\u3000orders-* \naudit".toList ∧
      policyOf .camelContext "camelContext.exclude" "exclude" "orders-* audit" =
        policyOf .camelContext "camelContext.exclude" "exclude"
          "\taudit\u3000orders-* \naudit" := by
  have hvalue : Text.Spaced (["orders-*", "audit"].map String.toList) "orders-* audit".toList :=
    Text.words_eq_iff.mp (by decide)
  have htext : Text.Spaced (["audit", "orders-*", "audit"].map String.toList)
      "\taudit\u3000orders-* \naudit".toList :=
    Text.words_eq_iff.mp (by decide)
  obtain ⟨-, -, -, hrespaced⟩ :=
    camelContext_recognises "camelContext.exclude" "exclude" "orders-* audit"
  refine ⟨hvalue, htext, hrespaced _ _ _ hvalue htext fun pattern => ?_⟩
  simp only [List.mem_cons, List.not_mem_nil, or_false]
  grind

end Dialect

end EventPolicy
