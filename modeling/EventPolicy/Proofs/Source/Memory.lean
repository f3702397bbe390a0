import EventPolicy.Proofs.Compiler.Lenient
import EventPolicy.Proofs.Compiler.Runs
import EventPolicy.Proofs.Source.Agreement
import Mathlib.Data.List.Induction

/-!
A source in memory under updates. What it offers is told by the updates alone:
a key has the text of its last update, and the keys stand in the order in which
they last arrived, that is, were set while absent. A build from the source
follows that order, and setting one key changes what that key gives to the
policy set and nothing else.
-/

namespace EventPolicy

namespace Listing

/-- What a key gives to the policy set of a build that succeeds. -/
def given (text? : String → Option String) (lenient : Bool) (key : String) : Option Policy :=
  ((ofTexts [key] text?).compileKey lenient key).policy?

theorem given_congr {text? other? : String → Option String} {key : String}
    (h : text? key = other? key) (lenient : Bool) :
    given text? lenient key = given other? lenient key := by
  rw [given, given, compileKey_ofTexts, compileKey_ofTexts, h]

theorem sourceKey_of_given {text? : String → Option String} {lenient : Bool} {key : String}
    {policy : Policy} (h : given text? lenient key = some policy) :
    policy.sourceKey = some key :=
  sourceKey_of_compiled (KeyOutcome.policy?_eq_some_iff.mp h)

/-- The policies of a build that succeeds are what its keys give. -/
theorem given_of_build {keys : List String} {text? : String → Option String} {lenient : Bool}
    {set : PolicySet} (h : ((ofTexts keys text?).build lenient).result = .ok set) :
    set.policies = keys.filterMap (given text? lenient) ∧
      ∀ key ∈ keys, Gives text? lenient key (given text? lenient key) := by
  obtain ⟨hfine, hpolicies⟩ := policies_of_build _ h
  refine ⟨hpolicies, fun key hkey => ?_⟩
  exact gives_policy?_compileKey fun cause hfails =>
    hfine key hkey cause (compileKey_eq_failed_iff.mpr hfails)

/-- What keys give of which one alone has another text. -/
theorem filterMap_given {before after : List String} {key : String}
    (hkey : key ∉ before ++ after) {text? other? : String → Option String}
    (hothers : ∀ other, other ≠ key → other? other = text? other) (lenient : Bool) :
    (before ++ key :: after).filterMap (given other? lenient) =
      before.filterMap (given text? lenient) ++ (given other? lenient key).toList ++
        after.filterMap (given text? lenient) := by
  have hsame : ∀ other ∈ before ++ after, given other? lenient other = given text? lenient other :=
    fun other hother => given_congr (hothers other fun heq => hkey (heq ▸ hother)) lenient
  have hbefore := List.filterMap_congr fun other hother =>
    hsame other (List.mem_append_left after hother)
  have hafter := List.filterMap_congr fun other hother =>
    hsame other (List.mem_append_right before hother)
  rw [List.filterMap_append, List.filterMap_cons, hbefore, hafter]
  cases given other? lenient key <;> simp

/-- Builds before and after one key is set differ in what that key gives and in
nothing else. -/
theorem build_insert {entries : Entries String} (hdistinct : entries.keys.Nodup)
    {key text : String} {lenient : Bool} {first second : PolicySet}
    (hfirst : ((ofTexts entries.keys entries.get?).build lenient).result = .ok first)
    (hsecond : ((ofTexts (entries.insert key text).keys
      (entries.insert key text).get?).build lenient).result = .ok second) :
    ∃ (before after : List Policy) (old new : Option Policy),
      first.policies = before ++ old.toList ++ after ∧
      second.policies = before ++ new.toList ++ after ∧
      (∀ policy ∈ old.toList ++ new.toList, policy.sourceKey = some key) ∧
      ∀ policy ∈ before ++ after, policy.sourceKey ≠ some key := by
  obtain ⟨before, after, hapart, hinsert, hkeys⟩ := Entries.exists_keys_insert hdistinct key text
  have hset : ∀ other, other ≠ key → (entries.insert key text).get? other = entries.get? other :=
    fun other hother => by rw [Entries.get?_insert, if_neg (Ne.symm hother)]
  obtain ⟨old, hold, hnamed⟩ : ∃ old : Option Policy,
      first.policies = before.filterMap (given entries.get? lenient) ++ old.toList ++
        after.filterMap (given entries.get? lenient) ∧
      ∀ policy ∈ old.toList, policy.sourceKey = some key := by
    rw [(given_of_build hfirst).1]
    rcases hkeys with hkeys | hkeys
    · exact ⟨none, by simp [hkeys], by simp⟩
    · refine ⟨given entries.get? lenient key, ?_, fun policy hpolicy => ?_⟩
      · rw [hkeys, filterMap_given hapart fun _ _ => rfl]
      · exact sourceKey_of_given (Option.mem_toList.mp hpolicy)
  refine ⟨_, _, old, given (entries.insert key text).get? lenient key, hold, ?_, ?_, ?_⟩
  · rw [(given_of_build hsecond).1, hinsert, filterMap_given hapart hset]
  · intro policy hpolicy
    rcases List.mem_append.mp hpolicy with hpolicy | hpolicy
    · exact hnamed policy hpolicy
    · exact sourceKey_of_given (Option.mem_toList.mp hpolicy)
  · intro policy hpolicy
    rw [← List.filterMap_append] at hpolicy
    obtain ⟨other, hother, hgiven⟩ := List.mem_filterMap.mp hpolicy
    rw [sourceKey_of_given hgiven]
    exact fun heq => hapart (Option.some.inj heq ▸ hother)

end Listing

/-- A change of a source in memory. -/
inductive Update where
  | set (key text : String)
  | remove (key : String)

namespace Update

def key : Update → String
  | set key _ => key
  | remove key => key

/-- The text that an update leaves under its key. -/
def text? : Update → Option String
  | set _ text => some text
  | remove _ => none

end Update

/-- The text of a key after updates of a mapping: what the last update of the
key left, or what the mapping had. -/
def textAfter (initial : Entries String) (updates : List Update) (key : String) :
    Option String :=
  match updates.reverse.find? fun update => update.key = key with
  | some update => update.text?
  | none => initial.get? key

/-- A key arrives when it is set while absent. The keys of the mapping have
arrived before all updates, in their order. -/
inductive Arrives (initial : Entries String) (updates : List Update) (key : String) : Nat → Prop
  | initially {place : Nat} (hplace : initial.keys[place]? = some key) :
      Arrives initial updates key place
  | set {before after : List Update} {text : String}
      (hupdates : updates = before ++ .set key text :: after)
      (habsent : textAfter initial before key = none) :
      Arrives initial updates key (initial.length + before.length)

def LastArrival (initial : Entries String) (updates : List Update) (key : String)
    (moment : Nat) : Prop :=
  Arrives initial updates key moment ∧
    ∀ other, Arrives initial updates key other → other ≤ moment

/-- One key last arrived before another. -/
def ArrivedBefore (initial : Entries String) (updates : List Update) (first second : String) :
    Prop :=
  ∃ earlier later, LastArrival initial updates first earlier ∧
    LastArrival initial updates second later ∧ earlier < later

section

variable {initial : Entries String} {updates : List Update} {key : String}

theorem textAfter_snoc (initial : Entries String) (updates : List Update) (update : Update)
    (key : String) :
    textAfter initial (updates ++ [update]) key =
      if update.key = key then update.text? else textAfter initial updates key := by
  by_cases hkey : update.key = key <;> simp [textAfter, hkey]

theorem Arrives.lt {moment : Nat} (h : Arrives initial updates key moment) :
    moment < initial.length + updates.length := by
  cases h with
  | initially hplace =>
    have hlt := (List.getElem?_eq_some_iff.mp hplace).1
    simp only [Entries.keys, List.length_map] at hlt
    omega
  | set hupdates habsent =>
    simp [hupdates]

/-- After one more update the arrivals are the earlier ones, and its own if it
sets an absent key. -/
theorem arrives_snoc_iff {update : Update} {moment : Nat} :
    Arrives initial (updates ++ [update]) key moment ↔
      Arrives initial updates key moment ∨
        (∃ text, update = .set key text) ∧ textAfter initial updates key = none ∧
          moment = initial.length + updates.length := by
  constructor
  · intro h
    cases h with
    | initially hplace => exact .inl (.initially hplace)
    | @set before after text hupdates habsent =>
      -- The new update is the one that lets the key arrive, or stands behind it.
      rcases List.eq_nil_or_concat after with rfl | ⟨between, last, rfl⟩
      · obtain ⟨rfl, hlast⟩ := List.append_inj' hupdates rfl
        exact .inr ⟨⟨text, (List.cons.inj hlast).1⟩, habsent, rfl⟩
      · rw [List.concat_eq_append, ← List.cons_append, ← List.append_assoc] at hupdates
        obtain ⟨rfl, -⟩ := List.append_inj' hupdates rfl
        exact .inl (.set rfl habsent)
  · rintro (h | ⟨⟨text, rfl⟩, habsent, rfl⟩)
    · cases h with
      | initially hplace => exact .initially hplace
      | @set before after text hupdates habsent =>
        have hmore : updates ++ [update] = before ++ .set key text :: (after ++ [update]) := by
          simp [hupdates]
        exact .set hmore habsent
    · exact .set rfl habsent

/-- An update that lets no key arrive changes no last arrival. -/
theorem lastArrival_snoc_iff {update : Update}
    (hupdate : (∃ text, update = .set key text) → textAfter initial updates key ≠ none)
    {moment : Nat} :
    LastArrival initial (updates ++ [update]) key moment ↔
      LastArrival initial updates key moment := by
  have harrives : ∀ other, Arrives initial (updates ++ [update]) key other ↔
      Arrives initial updates key other := fun other => by
    rw [arrives_snoc_iff]
    exact or_iff_left fun ⟨hset, habsent, _⟩ => hupdate hset habsent
  simp only [LastArrival, harrives]

theorem lastArrival_set {text : String} (habsent : textAfter initial updates key = none) :
    LastArrival initial (updates ++ [.set key text]) key (initial.length + updates.length) := by
  refine ⟨.set rfl habsent, fun other hother => ?_⟩
  have hlt := hother.lt
  rw [List.length_append, List.length_singleton] at hlt
  omega

end

/-- Entries that are what updates make of a mapping: each key with its last
text, in the order of the last arrivals. -/
structure Follows (initial : Entries String) (updates : List Update) (entries : Entries String) :
    Prop where
  distinct : entries.keys.Nodup
  get?_eq : ∀ key, entries.get? key = textAfter initial updates key
  arrived : ∀ key ∈ entries.keys, ∃ moment, LastArrival initial updates key moment
  ordered : entries.keys.Pairwise (ArrivedBefore initial updates)

theorem follows_initial {initial : Entries String} (hinitial : initial.keys.Nodup) :
    Follows initial [] initial := by
  have harrives : ∀ key place, Arrives initial [] key place ↔ initial.keys[place]? = some key := by
    intro key place
    constructor
    · intro h
      cases h with
      | initially hplace => exact hplace
      | set hupdates => simp at hupdates
    · exact .initially
  have hlast : ∀ key place, initial.keys[place]? = some key → LastArrival initial [] key place := by
    intro key place hplace
    refine ⟨.initially hplace, fun other hother => ?_⟩
    have hsame := ((harrives key other).mp hother).trans hplace.symm
    have hlt := (List.getElem?_eq_some_iff.mp ((harrives key other).mp hother)).1
    exact Nat.le_of_eq ((List.getElem?_inj hlt hinitial).mp hsame)
  constructor
  case distinct => exact hinitial
  case get?_eq => exact fun key => rfl
  case arrived =>
    intro key hkey
    obtain ⟨place, hplace⟩ := List.mem_iff_getElem?.mp hkey
    exact ⟨place, hlast key place hplace⟩
  case ordered =>
    refine List.pairwise_iff_getElem.mpr fun earlier later hearlier hlater hlt => ?_
    exact ⟨earlier, later, hlast _ _ (List.getElem?_eq_getElem hearlier),
      hlast _ _ (List.getElem?_eq_getElem hlater), hlt⟩

namespace Follows

variable {initial entries : Entries String} {updates : List Update}

theorem mem_keys_iff (h : Follows initial updates entries) {key : String} :
    key ∈ entries.keys ↔ textAfter initial updates key ≠ none := by
  rw [← h.get?_eq, ne_eq, Entries.get?_eq_none_iff, not_not]

/-- An update that lets no key arrive keeps the remaining keys in order. -/
theorem kept (h : Follows initial updates entries) {update : Update} {result : Entries String}
    (hupdate : ∀ key text, update = .set key text → key ∈ entries.keys)
    (hkeys : result.keys.Sublist entries.keys)
    (hget : ∀ key, result.get? key =
      if update.key = key then update.text? else entries.get? key) :
    Follows initial (updates ++ [update]) result := by
  have hlast : ∀ key moment, LastArrival initial (updates ++ [update]) key moment ↔
      LastArrival initial updates key moment := fun key moment =>
    lastArrival_snoc_iff fun ⟨text, hset⟩ => h.mem_keys_iff.mp (hupdate key text hset)
  constructor
  case distinct => exact h.distinct.sublist hkeys
  case get?_eq => exact fun key => by rw [hget, textAfter_snoc, h.get?_eq]
  case arrived =>
    intro key hkey
    simpa only [hlast] using h.arrived key (hkeys.subset hkey)
  case ordered =>
    refine (h.ordered.sublist hkeys).imp ?_
    simp only [ArrivedBefore, hlast, imp_self, implies_true]

/-- A key that is set while absent arrives after all others. -/
theorem added (h : Follows initial updates entries) {key : String} (hkey : key ∉ entries.keys)
    (text : String) :
    Follows initial (updates ++ [.set key text]) (entries.insert key text) := by
  have habsent : textAfter initial updates key = none := by
    rw [← h.get?_eq, Entries.get?_eq_none_iff]
    exact hkey
  have hkeys : (entries.insert key text).keys = entries.keys ++ [key] := by
    rw [Entries.keys_insert, if_neg hkey]
  have hlast : ∀ other ∈ entries.keys, ∀ moment,
      LastArrival initial (updates ++ [.set key text]) other moment ↔
        LastArrival initial updates other moment := by
    intro other hother moment
    refine lastArrival_snoc_iff fun ⟨_, hset⟩ => ?_
    obtain ⟨rfl, -⟩ := Update.set.inj hset
    exact (hkey hother).elim
  have hnow : LastArrival initial (updates ++ [.set key text]) key
      (initial.length + updates.length) := lastArrival_set habsent
  constructor
  case distinct => exact Entries.keys_nodup_insert h.distinct key text
  case get?_eq =>
    intro other
    rw [Entries.get?_insert, textAfter_snoc, h.get?_eq]
    rfl
  case arrived =>
    rw [hkeys]
    intro other hother
    rcases List.mem_append.mp hother with hold | hnew
    · obtain ⟨moment, hmoment⟩ := h.arrived other hold
      exact ⟨moment, (hlast other hold moment).mpr hmoment⟩
    · obtain rfl := List.mem_singleton.mp hnew
      exact ⟨_, hnow⟩
  case ordered =>
    rw [hkeys, List.pairwise_append]
    refine ⟨?_, List.pairwise_singleton _ _, ?_⟩
    · refine h.ordered.imp_of_mem ?_
      rintro first second hfirst hsecond ⟨earlier, later, hearlier, hlater, hlt⟩
      exact ⟨earlier, later, (hlast first hfirst _).mpr hearlier,
        (hlast second hsecond _).mpr hlater, hlt⟩
    · intro first hfirst second hsecond
      obtain rfl := List.mem_singleton.mp hsecond
      obtain ⟨moment, hmoment⟩ := h.arrived first hfirst
      exact ⟨moment, _, (hlast first hfirst _).mpr hmoment, hnow, hmoment.1.lt⟩

theorem set (h : Follows initial updates entries) (key text : String) :
    Follows initial (updates ++ [.set key text]) (entries.insert key text) := by
  by_cases hkey : key ∈ entries.keys
  · refine h.kept ?_ ?_ fun other => Entries.get?_insert entries key other text
    · rintro other _ hset
      exact (Update.set.inj hset).1 ▸ hkey
    · rw [Entries.keys_insert, if_pos hkey]
  · exact h.added hkey text

theorem remove (h : Follows initial updates entries) (key : String) :
    Follows initial (updates ++ [.remove key]) (entries.erase key) := by
  refine h.kept (by simp) ?_ fun other => Entries.get?_erase entries key other
  rw [Entries.keys_erase]
  exact List.filter_sublist

end Follows

namespace PropertySource

/-- A source after an update. -/
def update (source : PropertySource) : Update → PropertySource
  | .set key text => source.set key (.string text)
  | .remove key => (source.remove key).1

def updateAll (source : PropertySource) (updates : List Update) : PropertySource :=
  updates.foldl update source

theorem set_ofTexts (entries : Entries String) (key text : String) :
    (ofTexts entries).set key (.string text) = ofTexts (entries.insert key text) :=
  congrArg memory (Entries.insert_mapValues Value.string entries key text)

theorem remove_ofTexts (entries : Entries String) (key : String) :
    (ofTexts entries).remove key = (ofTexts (entries.erase key), entries.has key) := by
  simp only [ofTexts, remove, Entries.get?_mapValues, Entries.erase_mapValues, Entries.has]
  cases entries.get? key <;> rfl

theorem keys_ofTexts (entries : Entries String) : (ofTexts entries).keys = entries.keys :=
  Entries.keys_mapValues Value.string entries

theorem get?_ofTexts (entries : Entries String) (key : String) :
    (ofTexts entries).get? key = (entries.get? key).map .string :=
  Entries.get?_mapValues Value.string entries key

/-- Updates of a source in memory make of it what they make of its mapping. -/
theorem exists_follows {initial : Entries String} (hinitial : initial.keys.Nodup)
    (updates : List Update) :
    ∃ entries, (ofTexts initial).updateAll updates = ofTexts entries ∧
      Follows initial updates entries := by
  induction updates using List.reverseRecOn with
  | nil => exact ⟨initial, rfl, follows_initial hinitial⟩
  | append_singleton earlier update ih =>
    obtain ⟨entries, hentries, hfollows⟩ := ih
    have hstep : (ofTexts initial).updateAll (earlier ++ [update]) =
        (ofTexts entries).update update := by
      rw [updateAll, List.foldl_append, ← hentries]
      rfl
    rw [hstep]
    cases update with
    | set key text => exact ⟨_, set_ofTexts entries key text, hfollows.set key text⟩
    | remove key =>
      exact ⟨_, congrArg Prod.fst (remove_ofTexts entries key), hfollows.remove key⟩

theorem listing_memory (entries : Entries String) :
    (ofTexts entries).listing = .ofTexts entries.keys entries.get? :=
  listing_ofTexts (Path.ofText "") entries

/-- A source in memory under updates. Its keys are the present ones, without
repetition, in the order of their last arrivals; the text of a key is that of its
last update; a removal tells whether the key was present; a present key keeps
its place when it is set, and a removed one goes to the end. A recompilation that
succeeds answers what the keys give, in their order. Between two of them, setting
one key replaces, adds or takes away the policy of that key and leaves all others
as and where they were. -/
theorem memory_follows_updates {initial : Entries String} (hinitial : initial.keys.Nodup)
    (updates : List Update) :
    let source := (ofTexts initial).updateAll updates
    source.keys.Nodup ∧
    (∀ key, key ∈ source.keys ↔ (textAfter initial updates key).isSome) ∧
    (∀ key ∈ source.keys, ∃ moment, LastArrival initial updates key moment) ∧
    source.keys.Pairwise (ArrivedBefore initial updates) ∧
    (∀ key, source.get? key = (textAfter initial updates key).map .string) ∧
    (∀ key, source.get? key = none ↔ key ∉ source.keys) ∧
    (∀ key, (source.remove key).2 = true ↔ key ∈ source.keys) ∧
    (∀ key ∈ source.keys, ∀ text, (source.set key (.string text)).keys = source.keys) ∧
    (∀ key text, ((source.remove key).1.set key (.string text)).keys =
      source.keys.filter (fun other => other ≠ key) ++ [key]) ∧
    (∀ (compiler : Compiler) edition, (compiler.recompile source.listing).result = .ok edition →
      ∃ contribution : String → Option Policy,
        edition.policies.policies = source.keys.filterMap contribution ∧
        ∀ key ∈ source.keys,
          Listing.Gives (textAfter initial updates) compiler.lenient key (contribution key) ∧
          ∀ policy, contribution key = some policy → policy.sourceKey = some key) ∧
    ∀ (compiler later : Compiler) key text first second, later.lenient = compiler.lenient →
      (compiler.recompile source.listing).result = .ok first →
      (later.recompile (source.set key (.string text)).listing).result = .ok second →
      ∃ (before after : List Policy) (old new : Option Policy),
        first.policies.policies = before ++ old.toList ++ after ∧
        second.policies.policies = before ++ new.toList ++ after ∧
        (∀ policy ∈ old.toList ++ new.toList, policy.sourceKey = some key) ∧
        ∀ policy ∈ before ++ after, policy.sourceKey ≠ some key := by
  intro source
  obtain ⟨entries, hsource, hfollows⟩ := exists_follows hinitial updates
  simp only [source, hsource, keys_ofTexts, get?_ofTexts, set_ofTexts, remove_ofTexts,
    listing_memory]
  refine ⟨hfollows.distinct, ?_, hfollows.arrived, hfollows.ordered, ?_, ?_, ?_, ?_, ?_, ?_, ?_⟩
  · intro key
    rw [hfollows.mem_keys_iff, Option.isSome_iff_ne_none]
  · intro key
    rw [hfollows.get?_eq]
  · intro key
    rw [Option.map_eq_none_iff, Entries.get?_eq_none_iff]
  · intro key
    exact Entries.isSome_get?_iff entries key
  · intro key hkey text
    rw [Entries.keys_insert, if_pos hkey]
  · intro key text
    rw [Entries.keys_insert, Entries.keys_erase, if_neg (by simp)]
  · intro compiler edition hresult
    obtain ⟨hpolicies, hgives⟩ := Listing.given_of_build (Compiler.policies_of_recompile hresult)
    refine ⟨_, hpolicies, fun key hkey => ⟨?_, fun policy => Listing.sourceKey_of_given⟩⟩
    rw [← funext hfollows.get?_eq]
    exact hgives key hkey
  · intro compiler later key text first second hlenient hfirst hsecond
    have hafter := Compiler.policies_of_recompile hsecond
    rw [hlenient] at hafter
    exact Listing.build_insert hfollows.distinct (Compiler.policies_of_recompile hfirst) hafter

/-- A key that is removed and set again goes to the end, and a build before and
one after another key is set agree on it. -/
theorem memory_follows_updates_of_return :
    let initial : Entries String := [("endpoint.exclude", "seda:*"), ("endpoint.include", "jms:*")]
    let updates : List Update := [.remove "endpoint.exclude", .set "endpoint.exclude" "vm:*"]
    let source := (ofTexts initial).updateAll updates
    initial.keys.Nodup ∧
    source.keys = ["endpoint.include", "endpoint.exclude"] ∧
    ArrivedBefore initial updates "endpoint.include" "endpoint.exclude" ∧
    source.get? "endpoint.exclude" = some (.string "vm:*") ∧
    ∃ first second : Edition,
      ((Compiler.fresh false 0).recompile source.listing).result = .ok first ∧
      ((Compiler.fresh false 1).recompile
        (source.set "endpoint.include" (.string "amqp:*")).listing).result = .ok second ∧
      ∃ (before after : List Policy) (old new : Option Policy),
        first.policies.policies = before ++ old.toList ++ after ∧
        second.policies.policies = before ++ new.toList ++ after ∧
        (∀ policy ∈ old.toList ++ new.toList, policy.sourceKey = some "endpoint.include") ∧
        ∀ policy ∈ before ++ after, policy.sourceKey ≠ some "endpoint.include" := by
  intro initial updates source
  have hinitial : initial.keys.Nodup := by decide
  obtain ⟨-, -, -, hordered, htext, -, -, -, -, -, hframe⟩ :=
    memory_follows_updates hinitial updates
  have hpair : ["endpoint.include", "endpoint.exclude"].Pairwise (ArrivedBefore initial updates) :=
    hordered
  refine ⟨hinitial, rfl, ?_, htext "endpoint.exclude", ?_⟩
  · exact List.rel_of_pairwise_cons hpair (List.mem_singleton_self _)
  · exact ⟨_, _, rfl, rfl, hframe (.fresh false 0) (.fresh false 1) "endpoint.include" "amqp:*" _ _
      rfl rfl rfl⟩

end PropertySource

end EventPolicy
