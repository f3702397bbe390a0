import EventPolicy.Dialect
import EventPolicy.Proofs.Scope.ListedValues
import EventPolicy.Proofs.Scope.Pruning

/-!
What the dialects come to. The builders of scopes and of policies check what
they make, and a policy is pruned of redundant scopes. For the scopes that the
dialects make no check can fail, and no scope is redundant because no two of
them look at the same element. So each dialect is equal to a plain choice
between malformed keys, an unknown event and one draft, which is what the
equations `camelContext_eq` to `endpoint_eq` say and what later statements
about keys start from.
-/

namespace EventPolicy

namespace Scope

def byExpression (element : Element) (language expression : String) : Scope :=
  ⟨element, .expression, ValueSet.empty, some language, some expression⟩

def byPattern (element : Element) (pattern : String) : Scope :=
  byExpression element patternLanguage pattern

def byEvent (kind : EventKind) : Scope :=
  ⟨.event, .oneValue, ValueSet.ofList [kind.name], none, none⟩

/-- The scope of several context patterns, also if there is only one. -/
def byContexts (patterns : List String) : Scope :=
  ⟨.context, .severalValues, ValueSet.ofList patterns, none, none⟩

/-- Neither the order of context patterns nor their number is seen in a scope. -/
theorem byContexts_eq_iff {patterns others : List String} :
    byContexts patterns = byContexts others ↔ ∀ word, word ∈ patterns ↔ word ∈ others := by
  simp [byContexts, ValueSet.ofList_eq_iff]

theorem ofExpression_eq_ok (element : Element) {language : String} (hlanguage : language ≠ "")
    (expression : String) :
    ofExpression element language expression = .ok (byExpression element language expression) := by
  rw [ofExpression, checked_eq_ok_iff]
  exact ⟨by simp [fault?, hlanguage, ValueSet.empty, ValueSet.size], rfl⟩

theorem ofPattern_eq_ok (element : Element) (pattern : String) :
    ofPattern element pattern = .ok (byPattern element pattern) :=
  ofExpression_eq_ok element (by decide) pattern

theorem ofEvent_eq_ok (kind : EventKind) : ofEvent kind = .ok (byEvent kind) := by
  rw [ofEvent, checked_eq_ok_iff]
  exact ⟨by cases kind <;> decide, rfl⟩

theorem ofContexts_eq_ok {patterns : List String} (hpatterns : patterns ≠ []) :
    ofValues .context patterns (some .severalValues) = .ok (byContexts patterns) :=
  ofValues_eq_ok_iff.mpr ⟨⟨hpatterns, by simp, by simp⟩, rfl⟩

/-- Scopes on different elements have different signatures. -/
theorem nodup_signatures {scopes : List Scope} (h : (scopes.map element).Nodup) :
    (scopes.map signature).Nodup := by
  have helements := List.pairwise_map.mp h
  apply List.pairwise_map.mpr
  exact helements.imp fun hapart hsame => hapart (congrArg Prod.fst hsame)

theorem prune_eq_self {scopes : List Scope} (helements : (scopes.map element).Nodup) :
    prune scopes = scopes :=
  pruneFrom_eq_self (by simp) (nodup_signatures helements)

end Scope

theorem Policy.build_eq_ok (action : Action) {scopes : List Scope} (sourceKey : Option String)
    (hscopes : scopes ≠ []) (helements : (scopes.map Scope.element).Nodup) :
    Policy.build action scopes sourceKey = .ok ⟨action, scopes, sourceKey⟩ := by
  have hsignatures := Scope.nodup_signatures helements
  rw [Policy.build, Scope.prune_eq_self helements, Policy.checked_eq_ok_iff]
  exact ⟨Policy.fault?_eq_none_iff.mpr ⟨hscopes, hsignatures⟩, rfl⟩

namespace Dialect

private theorem throw_bind {α β : Type} (error : DialectError)
    (next : α → Except DialectError β) : (throw error >>= next) = .error error := rfl

private theorem ok_bind {α β : Type} (value : α)
    (next : α → Except DialectError β) : (Except.ok value >>= next) = next value := rfl

private theorem scope_ok (accepted : Scope) : scope (.ok accepted) = .ok accepted := rfl

/-- The scopes of a location: a bundle pattern and a context pattern, as far as
they are given. -/
def places : List String → List Scope
  | [] => []
  | [bundle] => [.byPattern .bundle bundle]
  | bundle :: context :: _ => [.byPattern .bundle bundle, .byPattern .context context]

theorem locationScopes_eq_ok (location : List String) :
    locationScopes location = .ok (places location) := by
  match location with
  | [] => rfl
  | [bundle] => simp [locationScopes, places, scope_ok, Scope.ofPattern_eq_ok, ok_bind, pure,
      Except.pure]
  | bundle :: context :: _ => simp [locationScopes, places, scope_ok, Scope.ofPattern_eq_ok,
      ok_bind, pure, Except.pure]

/-- A location looks at a bundle first and then at a context. -/
theorem elements_places (location : List String) :
    (places location).map Scope.element ∈ [[], [.bundle], [.bundle, .context]] := by
  match location with
  | [] => simp [places]
  | [bundle] => simp [places, Scope.byPattern, Scope.byExpression]
  | bundle :: context :: _ => simp [places, Scope.byPattern, Scope.byExpression]

theorem camelContext_eq (key remainder value : String) :
    camelContext key remainder value =
      if remainder = "" then .error (.malformedKey key (.segments 1 .camelContext))
      else if '.' ∈ remainder.toList then .error (.malformedKey key .contextForm)
      else if Text.words value = [] then .error (.malformedKey key .noPatterns)
      else .ok ⟨actionOf remainder, [.byContexts (Text.words value)]⟩ := by
  unfold camelContext
  by_cases hremainder : remainder = ""
  · simp [hremainder, throw_bind]
  by_cases hdot : '.' ∈ remainder.toList
  · simp [hremainder, hdot, throw_bind]
  by_cases hpatterns : Text.words value = []
  · simp [hremainder, hdot, hpatterns, throw_bind]
  simp [hremainder, hdot, hpatterns, Scope.ofContexts_eq_ok, scope_ok, ok_bind, pure, Except.pure]

theorem event_eq (key remainder value : String) :
    event key remainder value =
      match Text.pieces remainder '.' 2 with
      | [action, word, bundle] =>
        if action = "" ∨ word = "" ∨ bundle = "" then
          .error (.malformedKey key (.segments 3 .event))
        else if value = "" then .error (.malformedKey key .emptyValue)
        else match EventKind.resolve? word with
          | none => .error (.unknownEvent word)
          | some kind => .ok ⟨actionOf action,
              [.byEvent kind, .byPattern .bundle bundle, .byPattern .context value]⟩
      | _ => .error (.malformedKey key (.segments 3 .event)) := by
  unfold event
  generalize Text.pieces remainder '.' 2 = pieces
  match pieces with
  | [action, word, bundle] =>
    by_cases hsegments : action = "" ∨ word = "" ∨ bundle = ""
    · simp [hsegments, throw_bind]
    by_cases hvalue : value = ""
    · simp [hsegments, hvalue, throw_bind]
    cases hkind : EventKind.resolve? word with
    | none =>
      simp [hsegments, hvalue, eventOf, hkind, bind, Except.bind]
    | some kind =>
      simp [hsegments, hvalue, eventOf, hkind, Scope.ofEvent_eq_ok, Scope.ofPattern_eq_ok,
        scope_ok, ok_bind, pure, Except.pure]
  | [] | [_] | [_, _] | _ :: _ :: _ :: _ :: _ => rfl

/-- Parts are found exactly when they are few enough and none is empty. -/
theorem parts_eq_ok_iff {key segment : String} {limit : Nat} {found : List String} :
    parts key segment limit = .ok found ↔
      found = Text.allPieces segment '/' ∧ found.length ≤ limit ∧ "" ∉ found := by
  unfold parts
  simp only
  split
  · next hmany =>
    constructor
    · intro h
      cases h
    · rintro ⟨rfl, hfew, _⟩
      omega
  · next hfew =>
    split
    · next hempty =>
      constructor
      · intro h
        cases h
      · rintro ⟨rfl, _, hfilled⟩
        exact (hfilled hempty).elim
    · next hfilled =>
      rw [Except.ok.injEq]
      constructor
      · rintro rfl
        exact ⟨rfl, by omega, hfilled⟩
      · rintro ⟨rfl, _, _⟩
        rfl

theorem parts_error {key segment : String} {limit : Nat} {error : DialectError}
    (h : parts key segment limit = .error error) : ∃ reason, error = .malformedKey key reason := by
  unfold parts at h
  simp only at h
  split at h
  · cases h
    exact ⟨_, rfl⟩
  · split at h
    · cases h
      exact ⟨_, rfl⟩
    · cases h

theorem exchange_eq (key remainder value : String) :
    exchange key remainder value =
      match Text.pieces remainder '.' 2 with
      | [filter, word, specification] =>
        if filter = "" ∨ word = "" ∨ specification = "" then
          .error (.malformedKey key (.segments 3 .exchange))
        else match parts key specification 3 with
          | .error error => .error error
          | .ok [] => .error .noFirstPart
          | .ok (language :: location) =>
            if value = "" then .error (.malformedKey key .emptyValue)
            else match EventKind.resolve? word with
              | none => .error (.unknownEvent word)
              | some kind => .ok ⟨.includes,
                  .byEvent kind :: .byExpression .exchange language value :: places location⟩
      | _ => .error (.malformedKey key (.segments 3 .exchange)) := by
  unfold exchange
  generalize Text.pieces remainder '.' 2 = pieces
  match pieces with
  | [filter, word, specification] =>
    dsimp only
    by_cases hsegments : filter = "" ∨ word = "" ∨ specification = ""
    · simp [hsegments, throw_bind]
    cases hparts : parts key specification 3 with
    | error error => simp [hsegments, bind, Except.bind]
    | ok found =>
      cases found with
      | nil =>
        simp only [hsegments, if_false, ok_bind]
        rfl
      | cons language location =>
        by_cases hvalue : value = ""
        · simp [hsegments, hvalue, ok_bind, throw_bind]
        cases hkind : EventKind.resolve? word with
        | none => simp [hsegments, hvalue, eventOf, hkind, bind, Except.bind]
        | some kind =>
          have hlanguage : language ≠ "" := by
            obtain ⟨_, _, hfilled⟩ := parts_eq_ok_iff.mp hparts
            exact fun hempty => hfilled (hempty ▸ List.mem_cons_self)
          simp [hsegments, hvalue, eventOf, hkind, Scope.ofEvent_eq_ok, Scope.ofExpression_eq_ok,
            hlanguage, locationScopes_eq_ok, scope_ok, ok_bind, pure, Except.pure]
  | [] | [_] | [_, _] | _ :: _ :: _ :: _ :: _ => rfl

theorem endpoint_eq (key remainder value : String) :
    endpoint key remainder value =
      if remainder = "" then .error (.malformedKey key .endpointForm)
      else match parts key remainder 3 with
        | .error error => .error error
        | .ok [] => .error .noFirstPart
        | .ok (action :: location) =>
          if '.' ∈ action.toList then .error (.malformedKey key .endpointForm)
          else if value = "" then .error (.malformedKey key .emptyValue)
          else .ok ⟨actionOf action, .byPattern .endpoint value :: places location⟩ := by
  unfold endpoint
  by_cases hremainder : remainder = ""
  · simp [hremainder, throw_bind]
  cases hparts : parts key remainder 3 with
  | error error => simp [hremainder, bind, Except.bind]
  | ok found =>
    cases found with
    | nil =>
      simp only [hremainder, if_false, ok_bind]
      rfl
    | cons action location =>
      by_cases hdot : '.' ∈ action.toList
      · simp [hremainder, hdot, ok_bind, throw_bind]
      by_cases hvalue : value = ""
      · simp [hremainder, hdot, hvalue, ok_bind, throw_bind]
      simp [hremainder, hdot, hvalue, Scope.ofPattern_eq_ok, locationScopes_eq_ok, scope_ok,
        ok_bind, pure, Except.pure]

end Dialect

end EventPolicy
