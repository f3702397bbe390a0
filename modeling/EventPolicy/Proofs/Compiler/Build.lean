import EventPolicy.Compiler.Build
import EventPolicy.Proofs.Dialect.Outcome

/-!
What a build results in. For any listing the first key that fails decides, and
without such a key every key gives its policy or nothing, in the order of the
keys. For a listing of texts this module also says which keys fail and what a
key gives, in terms of its qualifier and of what its dialect comes to. Together they
describe every build of such a listing.
-/

namespace EventPolicy

/-- The policy that a key was compiled to, if it was. -/
def KeyOutcome.policy? : KeyOutcome → Option Policy
  | .compiled policy => some policy
  | .leftOut _ => none
  | .failed _ => none

theorem KeyOutcome.policy?_eq_some_iff {outcome : KeyOutcome} {policy : Policy} :
    outcome.policy? = some policy ↔ outcome = .compiled policy := by
  cases outcome <;> simp [policy?]

namespace Listing

/-- No key after the first that fails has a say in the error. -/
theorem compileKeys_eq_error (listing : Listing) {lenient : Bool} {before : List String}
    {key : String} {error : BuildError} (after : List String)
    (hbefore : ∀ earlier ∈ before, ∀ cause, listing.compileKey lenient earlier ≠ .failed cause)
    (hkey : listing.compileKey lenient key = .failed error) :
    (listing.compileKeys lenient (before ++ key :: after)).2.2 = .error error := by
  induction before with
  | nil => simp [compileKeys, hkey]
  | cons first rest ih =>
    have hrest := ih fun earlier hearlier => hbefore earlier (List.mem_cons_of_mem _ hearlier)
    cases hfirst : listing.compileKey lenient first with
    | failed cause => exact (hbefore first List.mem_cons_self cause hfirst).elim
    | leftOut notice => simp [compileKeys, hfirst, hrest]
    | compiled policy => simp [compileKeys, hfirst, hrest, Except.map]

/-- Without a key that fails, the policies are those of the keys, in their order. -/
theorem compileKeys_eq_ok (listing : Listing) {lenient : Bool} {keys : List String}
    (hkeys : ∀ key ∈ keys, ∀ cause, listing.compileKey lenient key ≠ .failed cause) :
    (listing.compileKeys lenient keys).2.2 =
      .ok (keys.filterMap fun key => (listing.compileKey lenient key).policy?) := by
  induction keys with
  | nil => rfl
  | cons first rest ih =>
    have hrest := ih fun key hkey => hkeys key (List.mem_cons_of_mem _ hkey)
    cases hfirst : listing.compileKey lenient first with
    | failed cause => exact (hkeys first List.mem_cons_self cause hfirst).elim
    | leftOut notice => simp [compileKeys, hfirst, hrest, KeyOutcome.policy?]
    | compiled policy => simp [compileKeys, hfirst, hrest, KeyOutcome.policy?, Except.map]

theorem result_build (listing : Listing) (lenient : Bool) :
    (listing.build lenient).result =
      (listing.compileKeys lenient listing.keys).2.2.map PolicySet.mk := by
  unfold build
  split
  · next notices policies hkeys => simp [hkeys, Except.map]
  · next notices error hkeys => simp [hkeys, Except.map]

/-- The first word of a key is the spelling of a qualifier, and the dialect of
that qualifier comes to `result`. -/
def Translates (key text : String) (result : Except DialectError Policy) : Prop :=
  ∃ qualifier remainder, Text.partition key '.' = (Qualifier.spelling qualifier, remainder) ∧
    Dialect.policyOf qualifier key remainder text = result

/-- The first word of a key is the spelling of no qualifier. -/
def UnknownQualifier (key : String) : Prop :=
  ∀ qualifier : Qualifier, (Text.partition key '.').1 ≠ qualifier.spelling

theorem Translates.unique {key text : String} {first second : Except DialectError Policy}
    (hfirst : Translates key text first) (hsecond : Translates key text second) :
    first = second := by
  obtain ⟨qualifier, remainder, hcut, rfl⟩ := hfirst
  obtain ⟨other, rest, hother, rfl⟩ := hsecond
  obtain ⟨hspelling, rfl⟩ := Prod.mk.inj (hcut.symm.trans hother)
  have hqualifier := Qualifier.ofSpelling?_eq_some_iff.mpr hspelling
  rw [Qualifier.ofSpelling?_eq_some_iff.mpr rfl] at hqualifier
  rw [Option.some.inj hqualifier]

theorem Translates.not_unknownQualifier {key text : String} {result : Except DialectError Policy}
    (h : Translates key text result) : ¬ UnknownQualifier key := by
  obtain ⟨qualifier, remainder, hcut, _⟩ := h
  exact fun hunknown => hunknown qualifier (by rw [hcut])

/-- The errors that a key of a listing of texts can fail with. -/
inductive Fails (text? : String → Option String) (lenient : Bool) (key : String) :
    BuildError → Prop
  | absent (habsent : text? key = none) : Fails text? lenient key (.absentKey key)
  | unknownEvent {text word : String} (htext : text? key = some text)
      (htranslates : Translates key text (.error (.unknownEvent word))) :
      Fails text? lenient key (.dialect (.unknownEvent word))
  | malformedKey {text about : String} {reason : Malformation} (hstrict : lenient = false)
      (htext : text? key = some text)
      (htranslates : Translates key text (.error (.malformedKey about reason))) :
      Fails text? lenient key (.dialect (.malformedKey about reason))

/-- What a key of a listing of texts gives to the policy set: its policy, or
nothing if its qualifier is unknown or if it is malformed in a lenient build. -/
inductive Gives (text? : String → Option String) (lenient : Bool) (key : String) :
    Option Policy → Prop
  | policy {text : String} {policy : Policy} (htext : text? key = some text)
      (htranslates : Translates key text (.ok policy)) : Gives text? lenient key (some policy)
  | unknownQualifier {text : String} (htext : text? key = some text)
      (hqualifier : UnknownQualifier key) : Gives text? lenient key none
  | malformedKey {text about : String} {reason : Malformation} (hlenient : lenient = true)
      (htext : text? key = some text)
      (htranslates : Translates key text (.error (.malformedKey about reason))) :
      Gives text? lenient key none

theorem Gives.unique {text? : String → Option String} {lenient : Bool} {key : String}
    {first second : Option Policy} (hfirst : Gives text? lenient key first)
    (hsecond : Gives text? lenient key second) : first = second := by
  cases hfirst with
  | policy htext htranslates =>
    cases hsecond with
    | policy hother hagain =>
      cases htext.symm.trans hother
      cases htranslates.unique hagain
      rfl
    | unknownQualifier _ hunknown => exact (htranslates.not_unknownQualifier hunknown).elim
    | malformedKey _ hother hagain =>
      cases htext.symm.trans hother
      cases htranslates.unique hagain
  | unknownQualifier htext hunknown =>
    cases hsecond with
    | policy _ hagain => exact (hagain.not_unknownQualifier hunknown).elim
    | unknownQualifier | malformedKey => rfl
  | malformedKey _ htext htranslates =>
    cases hsecond with
    | policy hother hagain =>
      cases htext.symm.trans hother
      cases htranslates.unique hagain
    | unknownQualifier | malformedKey => rfl

/-- Every key either has an unknown qualifier or is translated, to one of the
results that its dialect can come to. -/
theorem unknownQualifier_or_translates (key text : String) :
    UnknownQualifier key ∨ ∃ result, Translates key text result ∧ Dialect.Expected key result := by
  obtain ⟨⟨word, remainder⟩, hcut⟩ : ∃ cut, Text.partition key '.' = cut := ⟨_, rfl⟩
  cases hqualifier : Qualifier.ofSpelling? word with
  | none =>
    refine .inl fun qualifier hspelling => ?_
    rw [hcut] at hspelling
    rw [Qualifier.ofSpelling?_eq_some_iff.mpr hspelling] at hqualifier
    cases hqualifier
  | some qualifier =>
    have hspelling := Qualifier.ofSpelling?_eq_some_iff.mp hqualifier
    exact .inr ⟨_, ⟨qualifier, remainder, by rw [hcut, hspelling], rfl⟩,
      Dialect.policyOf_expected qualifier key remainder text⟩

/-- A key with an unknown qualifier is left out, and its first word is told. -/
theorem compileEntry_of_unknownQualifier {key : String} (h : UnknownQualifier key)
    (lenient : Bool) (value : Value) :
    compileEntry lenient key value =
      .leftOut (.policyKeySkipped key (Text.partition key '.').1) := by
  cases hqualifier : Qualifier.ofSpelling? (Text.partition key '.').1 with
  | none => simp only [compileEntry, hqualifier]
  | some qualifier => exact (h qualifier (Qualifier.ofSpelling?_eq_some_iff.mp hqualifier)).elim

/-- What becomes of a key whose dialect came to a result. -/
def outcomeOf (lenient : Bool) (key : String) : Except DialectError Policy → KeyOutcome
  | .ok policy => .compiled policy
  | .error (.malformedKey about reason) =>
    if lenient then .leftOut (.malformedPolicyKey key reason)
    else .failed (.dialect (.malformedKey about reason))
  | .error error => .failed (.dialect error)

theorem compileEntry_of_translates {key text : String} {result : Except DialectError Policy}
    (h : Translates key text result) (lenient : Bool) :
    compileEntry lenient key (.string text) = outcomeOf lenient key result := by
  obtain ⟨qualifier, remainder, hcut, rfl⟩ := h
  have hqualifier : Qualifier.ofSpelling? qualifier.spelling = some qualifier :=
    Qualifier.ofSpelling?_eq_some_iff.mpr rfl
  simp only [compileEntry, hcut, hqualifier, Dialect.policyOfValue]
  rfl

theorem compileKey_ofTexts (keys : List String) (text? : String → Option String) (lenient : Bool)
    (key : String) :
    (ofTexts keys text?).compileKey lenient key =
      match text? key with
      | none => .failed (.absentKey key)
      | some text => compileEntry lenient key (.string text) := by
  cases htext : text? key <;> simp [compileKey, ofTexts, htext]

theorem compileKey_eq_failed_iff {keys : List String} {text? : String → Option String}
    {lenient : Bool} {key : String} {error : BuildError} :
    (ofTexts keys text?).compileKey lenient key = .failed error ↔
      Fails text? lenient key error := by
  rw [compileKey_ofTexts]
  constructor
  · intro h
    cases htext : text? key with
    | none =>
      simp only [htext, KeyOutcome.failed.injEq] at h
      exact h ▸ .absent htext
    | some text =>
      simp only [htext] at h
      rcases unknownQualifier_or_translates key text with hunknown | ⟨result, htranslates, hresult⟩
      · have hentry := compileEntry_of_unknownQualifier hunknown lenient (.string text)
        rw [hentry] at h
        cases h
      · rw [compileEntry_of_translates htranslates] at h
        cases hresult with
        | policy action scopes => cases h
        | unknownEvent word =>
          cases h
          exact .unknownEvent htext htranslates
        | malformedKey reason =>
          cases lenient with
          | true => cases h
          | false =>
            cases h
            exact .malformedKey rfl htext htranslates
  · intro h
    cases h with
    | absent habsent => simp [habsent]
    | unknownEvent htext htranslates =>
      simp [htext, compileEntry_of_translates htranslates, outcomeOf]
    | malformedKey hstrict htext htranslates =>
      simp [htext, compileEntry_of_translates htranslates, outcomeOf, hstrict]

/-- A key of a listing of texts that does not fail gives its policy or nothing
by the rules of `Gives`. -/
theorem gives_policy?_compileKey {keys : List String} {text? : String → Option String}
    {lenient : Bool} {key : String} (hkey : ∀ error, ¬ Fails text? lenient key error) :
    Gives text? lenient key ((ofTexts keys text?).compileKey lenient key).policy? := by
  rw [compileKey_ofTexts]
  cases htext : text? key with
  | none => exact (hkey _ (.absent htext)).elim
  | some text =>
    simp only
    rcases unknownQualifier_or_translates key text with hunknown | ⟨result, htranslates, hresult⟩
    · have hentry := compileEntry_of_unknownQualifier hunknown lenient (.string text)
      rw [hentry]
      exact .unknownQualifier htext hunknown
    · rw [compileEntry_of_translates htranslates]
      cases hresult with
      | policy action scopes => exact .policy htext htranslates
      | unknownEvent word => exact (hkey _ (.unknownEvent htext htranslates)).elim
      | malformedKey reason =>
        cases lenient with
        | true => exact .malformedKey rfl htext htranslates
        | false => exact (hkey _ (.malformedKey rfl htext htranslates)).elim

/-- A key that gives a policy is named by it, and makes the same policy in a
listing of its own. -/
theorem alone_of_gives {text? : String → Option String} {lenient : Bool} {key text : String}
    {policy : Policy} (htext : text? key = some text)
    (hgives : Gives text? lenient key (some policy)) :
    policy.sourceKey = some key ∧
      ((ofEntries [(key, .string text)]).build lenient).result = .ok ⟨[policy]⟩ := by
  cases hgives with
  | policy hsome htranslates =>
    cases htext.symm.trans hsome
    constructor
    · rcases unknownQualifier_or_translates key text with hunknown | ⟨result, hagain, hresult⟩
      · exact (htranslates.not_unknownQualifier hunknown).elim
      · cases htranslates.unique hagain
        cases hresult
        rfl
    · have hkey : (ofEntries [(key, .string text)]).compileKey lenient key = .compiled policy := by
        have hentry := compileEntry_of_translates htranslates lenient
        simpa [compileKey, ofEntries, Entries.get?, outcomeOf] using hentry
      have hkeys : (ofEntries [(key, .string text)]).keys = [key] := rfl
      rw [result_build, hkeys, compileKeys_eq_ok _ (by simp [hkey])]
      simp [hkey, KeyOutcome.policy?, Except.map]

/-- A compiled policy names the key that it was compiled from. -/
theorem sourceKey_of_compiled {keys : List String} {text? : String → Option String} {lenient : Bool}
    {key : String} {policy : Policy}
    (h : (ofTexts keys text?).compileKey lenient key = .compiled policy) :
    policy.sourceKey = some key := by
  have hfine : ∀ error, ¬ Fails text? lenient key error := fun error hfails => by
    have hfailed : (ofTexts keys text?).compileKey lenient key = .failed error :=
      compileKey_eq_failed_iff.mpr hfails
    rw [h] at hfailed
    cases hfailed
  have hgives : Gives text? lenient key ((ofTexts keys text?).compileKey lenient key).policy? :=
    gives_policy?_compileKey hfine
  rw [h, KeyOutcome.policy?] at hgives
  cases hgives with
  | policy htext htranslates =>
    have hpolicy : Gives text? lenient key (some policy) := .policy htext htranslates
    exact (alone_of_gives htext hpolicy).1

/-- Compiled policies stand in the order of their keys. -/
theorem sourceKeys_sublist {listed keys : List String} {text? : String → Option String}
    {lenient : Bool} {policies : List Policy}
    (h : ((ofTexts listed text?).compileKeys lenient keys).2.2 = .ok policies) :
    (policies.map Policy.sourceKey).Sublist (keys.map some) := by
  induction keys generalizing policies with
  | nil =>
    obtain rfl := Except.ok.inj h
    exact .slnil
  | cons first rest ih =>
    cases hfirst : (ofTexts listed text?).compileKey lenient first with
    | failed cause => simp [compileKeys, hfirst] at h
    | leftOut notice =>
      simp only [compileKeys, hfirst] at h
      exact (ih h).cons _
    | compiled policy =>
      cases hrest : ((ofTexts listed text?).compileKeys lenient rest).2.2 with
      | error cause => simp [compileKeys, hfirst, hrest, Except.map] at h
      | ok others =>
        simp only [compileKeys, hfirst, hrest, Except.map] at h
        obtain rfl := Except.ok.inj h
        rw [List.map_cons, sourceKey_of_compiled hfirst]
        exact (ih hrest).cons_cons _

/-- Every build of a listing of texts, strict or lenient. The first key that
fails decides on the error, whatever comes after it. If none fails, each
occurrence of a key gives its policy or nothing, in the order of the keys. What
a key gives is determined by the key and its text, and a policy names its key
and is the one that the key makes alone. -/
theorem build_ofTexts (keys : List String) (text? : String → Option String) (lenient : Bool) :
    (∀ before key after error, keys = before ++ key :: after →
      (∀ earlier ∈ before, ∀ cause, ¬ Fails text? lenient earlier cause) →
      Fails text? lenient key error →
      ((ofTexts keys text?).build lenient).result = .error error) ∧
    ((∀ key ∈ keys, ∀ cause, ¬ Fails text? lenient key cause) →
      ∃ contribution : String → Option Policy,
        (∀ key ∈ keys, Gives text? lenient key (contribution key)) ∧
        ((ofTexts keys text?).build lenient).result = .ok ⟨keys.filterMap contribution⟩) ∧
    (∀ key first second, Gives text? lenient key first → Gives text? lenient key second →
      first = second) ∧
    (∀ key text policy, text? key = some text → Gives text? lenient key (some policy) →
      policy.sourceKey = some key ∧
        ((ofEntries [(key, .string text)]).build lenient).result = .ok ⟨[policy]⟩) := by
  refine ⟨?_, ?_, fun key first second => Gives.unique, fun key text policy => alone_of_gives⟩
  · rintro before key after error rfl hbefore hkey
    have herror := compileKeys_eq_error (ofTexts (before ++ key :: after) text?) after
      (fun earlier hearlier cause hfailed =>
        hbefore earlier hearlier cause (compileKey_eq_failed_iff.mp hfailed))
      (compileKey_eq_failed_iff.mpr hkey)
    have hkeys : (ofTexts (before ++ key :: after) text?).keys = before ++ key :: after := rfl
    rw [result_build, hkeys, herror]
    rfl
  · intro hkeys
    refine ⟨fun key => ((ofTexts keys text?).compileKey lenient key).policy?, ?_, ?_⟩
    · intro key hkey
      exact gives_policy?_compileKey (hkeys key hkey)
    · have hpolicies := compileKeys_eq_ok (ofTexts keys text?) fun key hkey cause hfailed =>
        hkeys key hkey cause (compileKey_eq_failed_iff.mp hfailed)
      have hlisted : (ofTexts keys text?).keys = keys := rfl
      rw [result_build, hlisted, hpolicies]
      rfl

end Listing

end EventPolicy
