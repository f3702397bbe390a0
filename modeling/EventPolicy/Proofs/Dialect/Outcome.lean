import EventPolicy.Proofs.Dialect.Grammar

/-!
What becomes of a draft. The scopes of a draft look at different elements, in an
order that the qualifier of its key allows. So none of them is redundant, the
policy of the draft has all of them (`policyOf_eq`), and the only errors of a
dialect are those of its grammar (`policyOf_outcome`). So what a key says decides
what becomes of it, which `policyOf_eq_ok_iff_reads`, `policyOf_eq_unknownEvent_iff`
and `policyOf_malformed_iff` state for one kind of outcome each.
-/

namespace EventPolicy

namespace Dialect

/-- The elements that the scopes of a dialect look at, in the order of the scopes. -/
def elementsOf : Qualifier → List (List Element)
  | .camelContext => [[.context]]
  | .event => [[.event, .bundle, .context]]
  | .exchange =>
    [[.event, .exchange], [.event, .exchange, .bundle], [.event, .exchange, .bundle, .context]]
  | .endpoint => [[.endpoint], [.endpoint, .bundle], [.endpoint, .bundle, .context]]

theorem ne_nil_of_mem_elementsOf {qualifier : Qualifier} {elements : List Element}
    (h : elements ∈ elementsOf qualifier) : elements ≠ [] := by
  revert elements
  cases qualifier <;> decide

theorem nodup_of_mem_elementsOf {qualifier : Qualifier} {elements : List Element}
    (h : elements ∈ elementsOf qualifier) : elements.Nodup := by
  revert elements
  cases qualifier <;> decide

theorem Reads.elements {remainder value : String} {qualifier : Qualifier} {draft : Draft}
    (h : Reads remainder value qualifier draft) :
    draft.scopes.map Scope.element ∈ elementsOf qualifier := by
  cases h with
  | camelContext => exact List.mem_singleton.mpr rfl
  | event => exact List.mem_singleton.mpr rfl
  | @exchange _ _ _ location =>
    simpa [elementsOf, Scope.byEvent, Scope.byExpression] using elements_places location
  | @endpoint _ location =>
    simpa [elementsOf, Scope.byPattern, Scope.byExpression] using elements_places location

/-- The policy of a draft has all scopes of the draft, in their order. -/
theorem policyOf_eq (qualifier : Qualifier) (key remainder value : String) :
    policyOf qualifier key remainder value =
      (draftOf qualifier key remainder value).map fun draft =>
        ⟨draft.action, draft.scopes, some key⟩ := by
  unfold policyOf
  cases hdraft : draftOf qualifier key remainder value with
  | error error => rfl
  | ok draft =>
    have helements := (reads_of_draftOf hdraft).elements
    have hscopes : draft.scopes ≠ [] := fun hempty =>
      ne_nil_of_mem_elementsOf helements (by rw [hempty, List.map_nil])
    exact congrArg (Except.mapError DialectError.invalidPolicy)
      (Policy.build_eq_ok draft.action (some key) hscopes (nodup_of_mem_elementsOf helements))

/-- A policy says what its key says, and names its key. -/
theorem policyOf_eq_ok_iff {qualifier : Qualifier} {key remainder value : String}
    {policy : Policy} :
    policyOf qualifier key remainder value = .ok policy ↔
      ∃ draft, draftOf qualifier key remainder value = .ok draft ∧
        policy = ⟨draft.action, draft.scopes, some key⟩ := by
  rw [policyOf_eq]
  cases draftOf qualifier key remainder value with
  | error error => simp [Except.map]
  | ok draft => simp [Except.map, eq_comm]

theorem policyOf_eq_error_iff {qualifier : Qualifier} {key remainder value : String}
    {error : DialectError} :
    policyOf qualifier key remainder value = .error error ↔
      draftOf qualifier key remainder value = .error error := by
  rw [policyOf_eq]
  cases draftOf qualifier key remainder value <;> simp [Except.map]

section

variable {qualifier : Qualifier} {key remainder value : String}

/-- A policy names its key and says what the key says. -/
theorem policyOf_eq_ok_iff_reads {policy : Policy} :
    policyOf qualifier key remainder value = .ok policy ↔
      Reads remainder value qualifier ⟨policy.action, policy.scopes⟩ ∧
        policy.sourceKey = some key := by
  rw [policyOf_eq_ok_iff]
  constructor
  · rintro ⟨draft, hdraft, rfl⟩
    exact ⟨draftOf_eq_ok_iff.mp hdraft, rfl⟩
  · rintro ⟨hreads, hkey⟩
    refine ⟨_, draftOf_eq_ok_iff.mpr hreads, ?_⟩
    rw [← hkey]

theorem policyOf_eq_unknownEvent_iff {word : String} :
    policyOf qualifier key remainder value = .error (.unknownEvent word) ↔
      Misnames remainder value qualifier word := by
  rw [policyOf_eq_error_iff, draftOf_eq_unknownEvent_iff]

theorem policyOf_malformed_iff :
    (∃ reason, policyOf qualifier key remainder value = .error (.malformedKey key reason)) ↔
      ¬ InOrder remainder value qualifier := by
  simp only [policyOf_eq_error_iff, draftOf_malformed_iff]

/-- An error is about the form of the key, or about its word if all else is in order. -/
theorem policyOf_error_cases {error : DialectError}
    (h : policyOf qualifier key remainder value = .error error) :
    (∃ reason, error = .malformedKey key reason) ∨
      ∃ word, error = .unknownEvent word ∧ Misnames remainder value qualifier word := by
  rw [policyOf_eq_error_iff] at h
  rcases draftOf_verdict qualifier key remainder value with
    ⟨draft, hdraft, _⟩ | ⟨reason, hmalformed⟩ | ⟨word, hunknown, hmisnames⟩
  · cases hdraft.symm.trans h
  · cases hmalformed.symm.trans h
    exact .inl ⟨reason, rfl⟩
  · cases hunknown.symm.trans h
    exact .inr ⟨word, rfl, hmisnames⟩

end

/-- What a dialect can come to: a policy that names its key, a malformed key or
a word that names no event. No other error is among them. -/
inductive Expected (key : String) : Except DialectError Policy → Prop
  | policy (action : Action) (scopes : List Scope) :
      Expected key (.ok ⟨action, scopes, some key⟩)
  | malformedKey (reason : Malformation) : Expected key (.error (.malformedKey key reason))
  | unknownEvent (word : String) : Expected key (.error (.unknownEvent word))

/-- No dialect fails by the checks on scopes and policies, whatever the texts of
key, remainder and value are. -/
theorem policyOf_expected (qualifier : Qualifier) (key remainder value : String) :
    Expected key (policyOf qualifier key remainder value) := by
  rw [policyOf_eq]
  rcases draftOf_cases qualifier key remainder value with
    ⟨draft, hdraft, _⟩ | ⟨reason, hmalformed⟩ | ⟨word, hunknown, _⟩
  · rw [hdraft]
    exact .policy draft.action draft.scopes
  · rw [hmalformed]
    exact .malformedKey reason
  · rw [hunknown]
    exact .unknownEvent word

/-- Whatever the texts are, a dialect gives a policy, refuses the key as
malformed, or refuses a word that stands in the text behind the qualifier. No
scope and no policy that it makes fails its check, no list of parts lacks the
first, and the policy keeps every scope that its builder is given. -/
theorem policyOf_outcome (qualifier : Qualifier) (key remainder value : String) :
    ((∃ policy, policyOf qualifier key remainder value = .ok policy) ∨
      (∃ reason, policyOf qualifier key remainder value = .error (.malformedKey key reason)) ∨
      ∃ word, policyOf qualifier key remainder value = .error (.unknownEvent word) ∧
        word.toList <:+: remainder.toList) ∧
    (∀ fault, policyOf qualifier key remainder value ≠ .error (.invalidScope fault)) ∧
    (∀ fault, policyOf qualifier key remainder value ≠ .error (.invalidPolicy fault)) ∧
    policyOf qualifier key remainder value ≠ .error .noFirstPart ∧
    (∀ segment limit, parts key segment limit ≠ .ok []) ∧
    ∀ draft, draftOf qualifier key remainder value = .ok draft →
      Scope.prune draft.scopes = draft.scopes ∧
        policyOf qualifier key remainder value = .ok ⟨draft.action, draft.scopes, some key⟩ := by
  have hexpected := policyOf_expected qualifier key remainder value
  refine ⟨?_, ?_, ?_, ?_, parts_ne_nil key, ?_⟩
  · rcases draftOf_cases qualifier key remainder value with
      ⟨draft, hdraft, _⟩ | ⟨reason, hmalformed⟩ | ⟨word, hunknown, hword⟩
    · exact .inl ⟨_, policyOf_eq_ok_iff.mpr ⟨draft, hdraft, rfl⟩⟩
    · exact .inr (.inl ⟨reason, policyOf_eq_error_iff.mpr hmalformed⟩)
    · exact .inr (.inr ⟨word, policyOf_eq_error_iff.mpr hunknown, hword⟩)
  · intro fault hinvalid
    rw [hinvalid] at hexpected
    cases hexpected
  · intro fault hinvalid
    rw [hinvalid] at hexpected
    cases hexpected
  · intro hlacking
    rw [hlacking] at hexpected
    cases hexpected
  · intro draft hdraft
    have helements := (reads_of_draftOf hdraft).elements
    exact ⟨Scope.prune_eq_self (nodup_of_mem_elementsOf helements),
      policyOf_eq_ok_iff.mpr ⟨draft, hdraft, rfl⟩⟩

end Dialect

end EventPolicy
