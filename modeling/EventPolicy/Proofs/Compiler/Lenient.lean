import EventPolicy.Proofs.Compiler.Build
import EventPolicy.Proofs.Dialect.Outcome

/-!
Lenient builds. Leaving malformed keys out while building comes to the same as
building strictly from a listing without them. Which keys are left out depends
on what is told first of a key with several faults: a word is looked up last,
so a key with an unknown word and another fault is left out, and a key with an
unknown word alone ends lenient builds as well.
-/

namespace EventPolicy

/-- Whether a key failed because it is malformed. -/
def KeyOutcome.isMalformed : KeyOutcome → Bool
  | .failed (.dialect (.malformedKey _ _)) => true
  | _ => false

namespace Listing

/-- A key in which all is in order, its value included, but for a word that
names no event. -/
inductive OnlyEventUnknown (key text word : String) : Prop
  | event {remainder action bundle : String} (hkey : key = Text.join "." ["event", remainder])
      (hform : Dialect.EventForm remainder text action word bundle)
      (hword : EventKind.resolve? word = none) : OnlyEventUnknown key text word
  | exchange {remainder filter language : String} {location : List String}
      (hkey : key = Text.join "." ["exchange", remainder])
      (hform : Dialect.ExchangeForm remainder text filter word language location)
      (hword : EventKind.resolve? word = none) : OnlyEventUnknown key text word

/-- A key with something behind its qualifier is cut after the qualifier. -/
theorem partition_eq_spelling_iff {key remainder : String} (hremainder : remainder ≠ "")
    (qualifier : Qualifier) :
    Text.partition key '.' = (qualifier.spelling, remainder) ↔
      key = Text.join "." [qualifier.spelling, remainder] := by
  have hundotted : '.' ∉ qualifier.spelling.toList := by cases qualifier <;> decide
  rw [Text.partition_eq_iff hremainder, and_iff_left hundotted]
  rfl

theorem onlyEventUnknown_iff {key text word : String} :
    OnlyEventUnknown key text word ↔ ∃ qualifier remainder,
      key = Text.join "." [Qualifier.spelling qualifier, remainder] ∧
        Dialect.Misnames remainder text qualifier word := by
  constructor
  · rintro (⟨hkey, hform, hword⟩ | ⟨hkey, hform, hword⟩)
    · exact ⟨.event, _, hkey, .event hform hword⟩
    · exact ⟨.exchange, _, hkey, .exchange hform hword⟩
  · rintro ⟨qualifier, remainder, hkey, hmisnames⟩
    cases hmisnames with
    | event hform hword => exact .event hkey hform hword
    | exchange hform hword => exact .exchange hkey hform hword

/-- A dialect tells an unknown event only of a key that has no other fault. -/
theorem translates_unknownEvent_iff {key text word : String} :
    Translates key text (.error (.unknownEvent word)) ↔ OnlyEventUnknown key text word := by
  rw [onlyEventUnknown_iff, Translates]
  simp only [Dialect.policyOf_eq_unknownEvent_iff]
  refine exists_congr fun qualifier => exists_congr fun remainder => and_congr_left fun h => ?_
  exact partition_eq_spelling_iff h.inOrder.remainder_ne_empty qualifier

/-- A key that its dialect refuses as malformed. -/
def Malformed (text? : String → Option String) (key : String) : Prop :=
  ∃ text about reason, text? key = some text ∧
    Translates key text (.error (.malformedKey about reason))

theorem isMalformed_compileKey_iff (keys : List String) {text? : String → Option String}
    {key : String} :
    ((ofTexts keys text?).compileKey false key).isMalformed = true ↔ Malformed text? key := by
  constructor
  · intro h
    unfold KeyOutcome.isMalformed at h
    split at h
    · next about reason hfailed =>
      cases compileKey_eq_failed_iff.mp hfailed with
      | malformedKey _ htext htranslates => exact ⟨_, about, reason, htext, htranslates⟩
    · cases h
  · rintro ⟨text, about, reason, htext, htranslates⟩
    rw [compileKey_eq_failed_iff.mpr (.malformedKey rfl htext htranslates)]
    rfl

instance (text? : String → Option String) (key : String) : Decidable (Malformed text? key) :=
  decidable_of_iff _ (isMalformed_compileKey_iff [])

/-- A build fails with the error of the first key that fails, and only so. -/
theorem compileKeys_eq_error_iff (listing : Listing) {lenient : Bool} {keys : List String}
    {error : BuildError} :
    (listing.compileKeys lenient keys).2.2 = .error error ↔
      ∃ before key after, keys = before ++ key :: after ∧
        (∀ earlier ∈ before, ∀ cause, listing.compileKey lenient earlier ≠ .failed cause) ∧
        listing.compileKey lenient key = .failed error := by
  constructor
  · intro h
    induction keys with
    | nil => cases h
    | cons first rest ih =>
      cases hfirst : listing.compileKey lenient first with
      | failed cause =>
        have hcause : cause = error := by simpa [compileKeys, hfirst] using h
        exact ⟨[], first, rest, rfl, by simp, hcause ▸ hfirst⟩
      | leftOut notice =>
        have hrest : (listing.compileKeys lenient rest).2.2 = .error error := by
          simpa [compileKeys, hfirst] using h
        obtain ⟨before, key, after, rfl, hbefore, hkey⟩ := ih hrest
        refine ⟨first :: before, key, after, rfl, ?_, hkey⟩
        exact List.forall_mem_cons.mpr ⟨by simp [hfirst], hbefore⟩
      | compiled policy =>
        have hrest : (listing.compileKeys lenient rest).2.2 = .error error := by
          cases hresult : (listing.compileKeys lenient rest).2.2 <;>
            simp_all [compileKeys, Except.map]
        obtain ⟨before, key, after, rfl, hbefore, hkey⟩ := ih hrest
        refine ⟨first :: before, key, after, rfl, ?_, hkey⟩
        exact List.forall_mem_cons.mpr ⟨by simp [hfirst], hbefore⟩
  · rintro ⟨before, key, after, rfl, hbefore, hkey⟩
    exact listing.compileKeys_eq_error after hbefore hkey

/-- No key of a build that succeeds fails. -/
theorem compileKey_ne_failed_of_ok (listing : Listing) {lenient : Bool} {keys : List String}
    {policies : List Policy} (h : (listing.compileKeys lenient keys).2.2 = .ok policies) :
    ∀ key ∈ keys, ∀ cause, listing.compileKey lenient key ≠ .failed cause := by
  induction keys generalizing policies with
  | nil => simp
  | cons first rest ih =>
    cases hfirst : listing.compileKey lenient first with
    | failed cause => simp [compileKeys, hfirst] at h
    | leftOut notice =>
      have hrest : (listing.compileKeys lenient rest).2.2 = .ok policies := by
        simpa [compileKeys, hfirst] using h
      exact List.forall_mem_cons.mpr ⟨by simp [hfirst], ih hrest⟩
    | compiled policy =>
      cases hrest : (listing.compileKeys lenient rest).2.2 with
      | error cause => simp [compileKeys, hfirst, hrest, Except.map] at h
      | ok others => exact List.forall_mem_cons.mpr ⟨by simp [hfirst], ih hrest⟩

theorem compileKey_of_malformed {text? : String → Option String} {key : String}
    (h : Malformed text? key) (keys : List String) :
    ∃ notice, (ofTexts keys text?).compileKey true key = .leftOut notice := by
  obtain ⟨text, about, reason, htext, htranslates⟩ := h
  refine ⟨.malformedPolicyKey key reason, ?_⟩
  simp [compileKey_ofTexts, htext, compileEntry_of_translates htranslates, outcomeOf]

/-- Leniency is about malformed keys alone. -/
theorem compileKey_of_not_malformed {text? : String → Option String} {key : String}
    (h : ¬ Malformed text? key) (keys : List String) :
    (ofTexts keys text?).compileKey true key = (ofTexts keys text?).compileKey false key := by
  rw [compileKey_ofTexts, compileKey_ofTexts]
  cases htext : text? key with
  | none => rfl
  | some text =>
    rcases unknownQualifier_or_translates key text with hunknown | ⟨result, htranslates, hresult⟩
    · simp only [compileEntry_of_unknownQualifier hunknown]
    · cases hresult with
      | malformedKey reason => exact (h ⟨text, key, reason, htext, htranslates⟩).elim
      | policy action scopes => simp [compileEntry_of_translates htranslates, outcomeOf]
      | unknownEvent word => simp [compileEntry_of_translates htranslates, outcomeOf]

/-- What a lenient build makes of keys, a strict one makes of those that are
not malformed. -/
theorem compileKeys_lenient (text? : String → Option String) (listed kept keys : List String) :
    ((ofTexts listed text?).compileKeys true keys).2.2 =
      ((ofTexts kept text?).compileKeys false
        (keys.filter fun key => ¬ Malformed text? key)).2.2 := by
  induction keys with
  | nil => rfl
  | cons first rest ih =>
    by_cases hfirst : Malformed text? first
    · obtain ⟨notice, hleft⟩ := compileKey_of_malformed hfirst listed
      simp [compileKeys, hleft, hfirst, ih]
    · have hsame : (ofTexts listed text?).compileKey true first =
          (ofTexts kept text?).compileKey false first := by
        rw [compileKey_of_not_malformed hfirst, compileKey_ofTexts, compileKey_ofTexts]
      rw [List.filter_cons_of_pos (by simpa using hfirst), compileKeys, compileKeys, hsame]
      cases (ofTexts kept text?).compileKey false first with
      | failed error => rfl
      | leftOut notice => exact ih
      | compiled policy => exact congrArg (Except.map (policy :: ·)) ih

theorem result_build_eq_ok_iff (listing : Listing) {lenient : Bool} {policies : List Policy} :
    (listing.build lenient).result = .ok ⟨policies⟩ ↔
      (listing.compileKeys lenient listing.keys).2.2 = .ok policies := by
  rw [result_build]
  cases (listing.compileKeys lenient listing.keys).2.2 <;> simp [Except.map]

/-- No key of a build that succeeds fails, and its policies are those of its
keys, in their order. -/
theorem policies_of_build (listing : Listing) {lenient : Bool} {set : PolicySet}
    (h : (listing.build lenient).result = .ok set) :
    (∀ key ∈ listing.keys, ∀ cause, listing.compileKey lenient key ≠ .failed cause) ∧
      set.policies =
        listing.keys.filterMap fun key => (listing.compileKey lenient key).policy? := by
  have hpolicies : (listing.compileKeys lenient listing.keys).2.2 = .ok set.policies :=
    (result_build_eq_ok_iff listing).mp h
  have hfine := compileKey_ne_failed_of_ok listing hpolicies
  exact ⟨hfine, Except.ok.inj (hpolicies.symm.trans (compileKeys_eq_ok listing hfine))⟩

theorem result_build_eq_error_iff (listing : Listing) {lenient : Bool} {error : BuildError} :
    (listing.build lenient).result = .error error ↔
      (listing.compileKeys lenient listing.keys).2.2 = .error error := by
  rw [result_build]
  cases (listing.compileKeys lenient listing.keys).2.2 <;> simp [Except.map]

/-- A lenient build is the strict build of the listing without its malformed
keys. So it gives what a strict build gives where that succeeds, and it never
ends at a malformed key. If every key has a value, it ends exactly at the first
key in which all is in order but for a word that names no event. -/
theorem build_lenient (keys : List String) (text? : String → Option String) :
    ((ofTexts keys text?).build true).result =
      ((ofTexts (keys.filter fun key => ¬ Malformed text? key) text?).build false).result ∧
    (∀ policies, ((ofTexts keys text?).build false).result = .ok policies →
      ((ofTexts keys text?).build true).result = .ok policies) ∧
    (∀ about reason,
      ((ofTexts keys text?).build true).result ≠ .error (.dialect (.malformedKey about reason))) ∧
    ((∀ key ∈ keys, (text? key).isSome) → ∀ word,
      ((ofTexts keys text?).build true).result = .error (.dialect (.unknownEvent word)) ↔
        ∃ before key after text, keys = before ++ key :: after ∧ text? key = some text ∧
          OnlyEventUnknown key text word ∧
          ∀ earlier ∈ before, ∀ other found, text? earlier = some found →
            ¬ OnlyEventUnknown earlier found other) := by
  have hsame : ((ofTexts keys text?).build true).result =
      ((ofTexts (keys.filter fun key => ¬ Malformed text? key) text?).build false).result := by
    rw [result_build, result_build]
    exact congrArg (Except.map PolicySet.mk) (compileKeys_lenient text? keys _ keys)
  refine ⟨hsame, ?_, ?_, ?_⟩
  · rintro ⟨policies⟩ hstrict
    have hcompiled := (result_build_eq_ok_iff _).mp hstrict
    have hkept : keys.filter (fun key => ¬ Malformed text? key) = keys := by
      refine List.filter_eq_self.mpr fun key hkey => decide_eq_true ?_
      rintro ⟨text, about, reason, htext, htranslates⟩
      have hfails : Fails text? false key (.dialect (.malformedKey about reason)) :=
        .malformedKey rfl htext htranslates
      exact compileKey_ne_failed_of_ok _ hcompiled key hkey _ (compileKey_eq_failed_iff.mpr hfails)
    rw [hsame, hkept, hstrict]
  · intro about reason hfailed
    rw [result_build_eq_error_iff, compileKeys_eq_error_iff] at hfailed
    obtain ⟨before, key, after, -, -, hkey⟩ := hfailed
    cases compileKey_eq_failed_iff.mp hkey with
    | malformedKey hstrict => cases hstrict
  · intro hvalues word
    rw [result_build_eq_error_iff, compileKeys_eq_error_iff]
    constructor
    · rintro ⟨before, key, after, hkeys, hbefore, hkey⟩
      cases compileKey_eq_failed_iff.mp hkey with
      | unknownEvent htext htranslates =>
        refine ⟨before, key, after, _, hkeys, htext, translates_unknownEvent_iff.mp htranslates, ?_⟩
        intro earlier hearlier other found hfound honly
        have hfails : Fails text? true earlier (.dialect (.unknownEvent other)) :=
          .unknownEvent hfound (translates_unknownEvent_iff.mpr honly)
        exact hbefore earlier hearlier _ (compileKey_eq_failed_iff.mpr hfails)
    · rintro ⟨before, key, after, text, rfl, htext, honly, hbefore⟩
      refine ⟨before, key, after, rfl, ?_, ?_⟩
      · intro earlier hearlier cause hfailed
        cases compileKey_eq_failed_iff.mp hfailed with
        | absent habsent => simpa [habsent] using hvalues earlier (by simp [hearlier])
        | unknownEvent hfound htranslates =>
          exact hbefore earlier hearlier _ _ hfound (translates_unknownEvent_iff.mp htranslates)
        | malformedKey hstrict => cases hstrict
      · exact compileKey_eq_failed_iff.mpr
          (.unknownEvent htext (translates_unknownEvent_iff.mpr honly))

end Listing

end EventPolicy
