import EventPolicy.Proofs.Compiler.Lenient

/-!
What a build tells of its keys. A key that is left out is told once, where it stands, and
a compiled key is not told. A build counts the keys that it skips beside the notices, and
the count keeps step with them (`skipped_eq_length_notices`). A build that is finished then
tells how many keys it compiled and how many it skipped, which are all of them; a build that
fails stops telling at the key that fails (`build_accounts_for_keys`).
-/

namespace EventPolicy

/-- The notice of a key that is left out, if it is. -/
def KeyOutcome.notice? : KeyOutcome → Option Notice
  | .compiled _ => none
  | .leftOut notice => some notice
  | .failed _ => none

namespace Listing

/-- The notices of keys that do not fail come first, in the order of the keys, whatever
keys follow them. -/
theorem notices_append (listing : Listing) {lenient : Bool} {keys : List String}
    (hkeys : ∀ key ∈ keys, ∀ cause, listing.compileKey lenient key ≠ .failed cause)
    (after : List String) :
    (listing.compileKeys lenient (keys ++ after)).1 =
      (keys.filterMap fun key => (listing.compileKey lenient key).notice?) ++
        (listing.compileKeys lenient after).1 := by
  induction keys with
  | nil => rfl
  | cons first rest ih =>
    have hrest := ih fun key hkey => hkeys key (List.mem_cons_of_mem _ hkey)
    cases hfirst : listing.compileKey lenient first with
    | failed cause => exact (hkeys first List.mem_cons_self cause hfirst).elim
    | leftOut notice => simp [compileKeys, hfirst, hrest, KeyOutcome.notice?]
    | compiled policy => simp [compileKeys, hfirst, hrest, KeyOutcome.notice?]

/-- The count of skipped keys keeps step with the notices, also where a key fails. -/
theorem skipped_eq_length_notices (listing : Listing) (lenient : Bool) (keys : List String) :
    (listing.compileKeys lenient keys).2.1 = (listing.compileKeys lenient keys).1.length := by
  induction keys with
  | nil => rfl
  | cons first rest ih =>
    cases hfirst : listing.compileKey lenient first with
    | failed cause => simp [compileKeys, hfirst]
    | leftOut notice => simp [compileKeys, hfirst, ih]
    | compiled policy => simp [compileKeys, hfirst, ih]

/-- Every key is either compiled or counted as skipped. -/
theorem length_policies_add_skipped (listing : Listing) {lenient : Bool} {keys : List String}
    {policies : List Policy} (h : (listing.compileKeys lenient keys).2.2 = .ok policies) :
    policies.length + (listing.compileKeys lenient keys).2.1 = keys.length := by
  induction keys generalizing policies with
  | nil =>
    obtain rfl := Except.ok.inj h
    rfl
  | cons first rest ih =>
    cases hfirst : listing.compileKey lenient first with
    | failed cause => simp [compileKeys, hfirst] at h
    | leftOut notice =>
      have hcount : (listing.compileKeys lenient (first :: rest)).2.1 =
          (listing.compileKeys lenient rest).2.1 + 1 := by
        simp [compileKeys, hfirst]
      have hsame : (listing.compileKeys lenient rest).2.2 = .ok policies := by
        simpa [compileKeys, hfirst] using h
      have hrest := ih hsame
      rw [hcount, List.length_cons]
      omega
    | compiled policy =>
      have hcount : (listing.compileKeys lenient (first :: rest)).2.1 =
          (listing.compileKeys lenient rest).2.1 := by
        simp [compileKeys, hfirst]
      cases hothers : (listing.compileKeys lenient rest).2.2 with
      | error cause => simp [compileKeys, hfirst, hothers, Except.map] at h
      | ok others =>
        have hrest := ih hothers
        obtain rfl : policy :: others = policies := by
          simpa [compileKeys, hfirst, hothers, Except.map] using h
        rw [hcount, List.length_cons, List.length_cons]
        omega

/-- A build that succeeds tells of its keys and then of its size and of its count of
skipped keys. The count is the number of notices told before, and with the policies it
makes up the keys. -/
theorem notices_of_build_ok (listing : Listing) {lenient : Bool} {set : PolicySet}
    (h : (listing.build lenient).result = .ok set) :
    let skips := listing.keys.filterMap fun key => (listing.compileKey lenient key).notice?
    (listing.build lenient).notices = skips ++ [.policySetCompiled set.size skips.length] ∧
      set.size + skips.length = listing.keys.length := by
  intro skips
  have hpolicies : (listing.compileKeys lenient listing.keys).2.2 = .ok set.policies :=
    (result_build_eq_ok_iff listing).mp h
  have hskips : (listing.compileKeys lenient listing.keys).1 = skips := by
    have hall := listing.notices_append (policies_of_build listing h).1 []
    rwa [List.append_nil, compileKeys, List.append_nil] at hall
  have hskipped : (listing.compileKeys lenient listing.keys).2.1 = skips.length := by
    rw [skipped_eq_length_notices, hskips]
  have hall : listing.compileKeys lenient listing.keys = (skips, skips.length, .ok set.policies) :=
    Prod.ext hskips (Prod.ext hskipped hpolicies)
  constructor
  · rw [build, hall]
    rfl
  · rw [← hskipped]
    exact length_policies_add_skipped listing hpolicies

/-- A build that fails tells of the keys before the one that fails. -/
theorem notices_of_build_error (listing : Listing) {lenient : Bool} {error : BuildError}
    (h : (listing.build lenient).result = .error error) :
    ∃ before key after, listing.keys = before ++ key :: after ∧
      (∀ earlier ∈ before, ∀ cause, listing.compileKey lenient earlier ≠ .failed cause) ∧
      listing.compileKey lenient key = .failed error ∧
      (listing.build lenient).notices =
        before.filterMap fun earlier => (listing.compileKey lenient earlier).notice? := by
  have herror := (result_build_eq_error_iff listing).mp h
  obtain ⟨before, key, after, hkeys, hbefore, hkey⟩ := (compileKeys_eq_error_iff listing).mp herror
  refine ⟨before, key, after, hkeys, hbefore, hkey, ?_⟩
  have hskips : (listing.compileKeys lenient listing.keys).1 =
      before.filterMap fun earlier => (listing.compileKey lenient earlier).notice? := by
    rw [hkeys, listing.notices_append hbefore, compileKeys, hkey, List.append_nil]
  have hall : listing.compileKeys lenient listing.keys = (_, _, .error error) :=
    Prod.ext hskips (Prod.ext rfl herror)
  rw [build, hall]

/-- The record of a key of the listing, if it is left out. -/
def told (listing : Listing) (lenient : Bool) (key : String) : Option Record :=
  (listing.compileKey lenient key).notice?.map Notice.record

theorem map_record_notices (listing : Listing) (lenient : Bool) (keys : List String) :
    (keys.filterMap fun key => (listing.compileKey lenient key).notice?).map Notice.record =
      keys.filterMap (listing.told lenient) :=
  List.map_filterMap

/-- What a build of a listing of texts tells of a key that does not fail: nothing if the
key is compiled, and one record if it is left out. -/
inductive Tells (text? : String → Option String) (lenient : Bool) (key : String) :
    Option Record → Prop
  | policy {text : String} {policy : Policy} (htext : text? key = some text)
      (htranslates : Translates key text (.ok policy)) : Tells text? lenient key none
  | unknownQualifier {text : String} (htext : text? key = some text)
      (hqualifier : UnknownQualifier key) :
      Tells text? lenient key (some ⟨.debug, "policy_key_skipped",
        [("key", .string key), ("qualifier", .string (Text.partition key '.').1)], false⟩)
  | malformedKey {text about : String} {reason : Malformation} (hlenient : lenient = true)
      (htext : text? key = some text)
      (htranslates : Translates key text (.error (.malformedKey about reason))) :
      Tells text? lenient key (some ⟨.warning, "malformed_policy_key",
        [("key", .string key), ("reason", .string reason.message)], false⟩)

section

variable {text? : String → Option String} {lenient : Bool} {key : String}

/-- A key that does not fail is told by the record of its notice, if it has one. -/
theorem tells_iff (keys : List String) {record? : Option Record} :
    Tells text? lenient key record? ↔
      (∀ cause, (ofTexts keys text?).compileKey lenient key ≠ .failed cause) ∧
        record? = (ofTexts keys text?).told lenient key := by
  rw [told, compileKey_ofTexts]
  constructor
  · intro h
    cases h with
    | policy htext htranslates =>
      simp [htext, compileEntry_of_translates htranslates, outcomeOf, KeyOutcome.notice?]
    | unknownQualifier htext hqualifier =>
      simp [htext, compileEntry_of_unknownQualifier hqualifier, KeyOutcome.notice?, Notice.record]
    | malformedKey hlenient htext htranslates =>
      simp [htext, compileEntry_of_translates htranslates, outcomeOf, hlenient,
        KeyOutcome.notice?, Notice.record]
  · rintro ⟨hfine, rfl⟩
    cases htext : text? key with
    | none => exact (hfine (.absentKey key) (by rw [htext])).elim
    | some text =>
      simp only [htext] at hfine ⊢
      rcases unknownQualifier_or_translates key text with hunknown | ⟨result, htranslates, hresult⟩
      · rw [compileEntry_of_unknownQualifier hunknown]
        exact .unknownQualifier htext hunknown
      · rw [compileEntry_of_translates htranslates] at hfine ⊢
        cases hresult with
        | policy action scopes => exact .policy htext htranslates
        | unknownEvent word => exact (hfine _ rfl).elim
        | malformedKey reason =>
          cases lenient with
          | true => exact .malformedKey rfl htext htranslates
          | false => exact (hfine _ rfl).elim

theorem Tells.unique {first second : Option Record} (hfirst : Tells text? lenient key first)
    (hsecond : Tells text? lenient key second) : first = second :=
  ((tells_iff []).mp hfirst).2.trans ((tells_iff []).mp hsecond).2.symm

/-- What a build tells of a key is not what it tells at its end. -/
theorem Tells.event_ne {record : Record} (h : Tells text? lenient key (some record)) :
    record.event ≠ "policy_set_compiled" := by
  cases h <;> simp

end

/-- The log of a build of a listing of texts, strict or lenient. A build that succeeds
tells of its keys, in their order: once of each that it leaves out, and nothing of the
others. Then it tells its size and how many keys it left out, which together are all
keys. A build that fails tells of the keys before the first that fails, and nothing else. -/
theorem build_accounts_for_keys (keys : List String) (text? : String → Option String)
    (lenient : Bool) :
    let report := (ofTexts keys text?).build lenient
    let log := report.notices.map Notice.record
    (∀ key first second, Tells text? lenient key first → Tells text? lenient key second →
      first = second) ∧
    (∀ set, report.result = .ok set → ∃ told : String → Option Record,
      (∀ key ∈ keys, Tells text? lenient key (told key)) ∧
      log = keys.filterMap told ++ [⟨.info, "policy_set_compiled",
        [("policies", .int set.size), ("skipped_keys", .int (keys.filterMap told).length)],
        true⟩] ∧
      set.size + (keys.filterMap told).length = keys.length) ∧
    ∀ error, report.result = .error error → ∃ (before : List String) (key : String)
        (after : List String) (told : String → Option Record),
      keys = before ++ key :: after ∧ Fails text? lenient key error ∧
      (∀ earlier ∈ before, Tells text? lenient earlier (told earlier)) ∧
      log = before.filterMap told ∧ ∀ record ∈ log, record.event ≠ "policy_set_compiled" := by
  intro report log
  refine ⟨fun key first second => Tells.unique, fun set hset => ?_, fun error herror => ?_⟩
  · have hfine := (policies_of_build _ hset).1
    obtain ⟨hnotices, hall⟩ := notices_of_build_ok _ hset
    have hlog := congrArg (List.map Notice.record) hnotices
    rw [List.map_append] at hlog
    have hskipped := congrArg List.length (map_record_notices (ofTexts keys text?) lenient keys)
    rw [List.length_map] at hskipped
    refine ⟨(ofTexts keys text?).told lenient, ?_, ?_, ?_⟩
    · exact fun key hkey => (tells_iff keys).mpr ⟨hfine key hkey, rfl⟩
    · rw [← hskipped, ← map_record_notices]
      exact hlog
    · rw [← hskipped]
      exact hall
  · obtain ⟨before, key, after, hkeys, hbefore, hkey, hnotices⟩ := notices_of_build_error _ herror
    have htells : ∀ earlier ∈ before,
        Tells text? lenient earlier ((ofTexts keys text?).told lenient earlier) :=
      fun earlier hearlier => (tells_iff keys).mpr ⟨hbefore earlier hearlier, rfl⟩
    have hlog : log = before.filterMap ((ofTexts keys text?).told lenient) := by
      rw [← map_record_notices, ← hnotices]
    refine ⟨before, key, after, _, hkeys, compileKey_eq_failed_iff.mp hkey, htells, hlog, ?_⟩
    intro record hrecord
    rw [hlog] at hrecord
    obtain ⟨earlier, hearlier, htold⟩ := List.mem_filterMap.mp hrecord
    exact (htold ▸ htells earlier hearlier).event_ne

end Listing

end EventPolicy
