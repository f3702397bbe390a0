import EventPolicy.Proofs.Compiler.Lenient
import EventPolicy.Proofs.Settings.Verdicts
import EventPolicy.Proofs.Source.Agreement
import EventPolicy.Proofs.Table.Flatten
import EventPolicy.Proofs.Text.Words

/-!
Lists of context patterns in a table of policy keys. A list is made a text with blanks
between its patterns, and the dialect cuts the text at its blanks again. As long as the
patterns are filled and have no blanks, the policy has the patterns of the list, from
whatever source it comes.
-/

namespace EventPolicy

namespace Listing

/-- A key of a listing makes one policy: alone, and in every build that succeeds. A build
that fails does so for another key. -/
structure Makes (listing : Listing) (key : String) (policy : Policy) : Prop where
  alone : ∀ lenient, listing.compileKey lenient key = .compiled policy
  built : ∀ lenient set, (listing.build lenient).result = .ok set → ∀ other,
    other ∈ set.policies ∧ other.sourceKey = some key ↔ other = policy
  finished : ∀ lenient, (∀ other ∈ listing.keys, other ≠ key → ∀ error,
    listing.compileKey lenient other ≠ .failed error) →
      ∃ set, (listing.build lenient).result = .ok set

theorem makes_of_text {texts : Entries String} {key text : String} {policy : Policy}
    (htext : texts.get? key = some text)
    (hentry : ∀ lenient, compileEntry lenient key (.string text) = .compiled policy) :
    (ofTexts texts.keys texts.get?).Makes key policy := by
  have halone (lenient : Bool) :
      (ofTexts texts.keys texts.get?).compileKey lenient key = .compiled policy := by
    rw [compileKey_ofTexts, htext]
    exact hentry lenient
  refine ⟨halone, fun lenient set hset other => ?_, fun lenient hothers => ?_⟩
  · rw [(policies_of_build _ hset).2, List.mem_filterMap]
    constructor
    · rintro ⟨⟨found, -, hfound⟩, hkey⟩
      have hcompiled := KeyOutcome.policy?_eq_some_iff.mp hfound
      obtain rfl : found = key := by
        simpa [sourceKey_of_compiled hcompiled] using hkey
      exact KeyOutcome.compiled.inj (hcompiled.symm.trans (halone lenient))
    · rintro rfl
      have hmember : key ∈ texts.keys := (Entries.isSome_get?_iff texts key).mp (by simp [htext])
      exact ⟨⟨key, hmember, KeyOutcome.policy?_eq_some_iff.mpr (halone lenient)⟩,
        sourceKey_of_compiled (halone lenient)⟩
  · rw [result_build, compileKeys_eq_ok]
    · exact ⟨_, rfl⟩
    · intro other hother error
      by_cases hsame : other = key
      · simp [hsame, halone]
      · exact hothers other hother hsame error

/-- The text of filled patterns without blanks makes the policy that has them. -/
theorem compileEntry_join {action : String} {items : List String}
    (haction : Dialect.Segment action) (hfilled : items ≠ [])
    (hitems : ∀ item ∈ items, Text.Unbroken item.toList) (lenient : Bool) :
    let key := Text.join "." ["camelContext", action]
    compileEntry lenient key (.string (Text.join " " items)) =
      .compiled ⟨Dialect.actionOf action, [.byContexts items], some key⟩ := by
  intro key
  have hwords := Text.words_join hitems
  have hform : Dialect.CamelContextForm action (Text.join " " items) :=
    ⟨haction, by rwa [hwords]⟩
  have hcut : Text.partition key '.' = (Qualifier.camelContext.spelling, action) :=
    (partition_eq_spelling_iff haction.filled .camelContext).mpr rfl
  have hpolicy : Dialect.policyOf .camelContext key action (Text.join " " items) =
      .ok ⟨Dialect.actionOf action, [.byContexts items], some key⟩ := by
    have hreads := Dialect.Reads.camelContext hform
    rw [hwords] at hreads
    exact Dialect.policyOf_eq_ok_iff_reads.mpr ⟨hreads, rfl⟩
  rw [compileEntry_of_translates ⟨.camelContext, action, hcut, hpolicy⟩]
  rfl

end Listing

namespace Properties

theorem valueText?_texts (items : List String) :
    valueText? (.list (items.map .string)) = some (Text.join " " items) := by
  rw [valueText?, Value.textsOf_eq_some_iff.mpr rfl]
  rfl

/-- Every leaf from which a key of a table has its value is a text or a list of texts,
but for the one of a key. -/
def OthersSupported (table : Table) (key : String) : Prop :=
  ∀ path value, Table.Effective table path value → Table.dotted "" path ≠ key →
    valueText? value ≠ none

variable {table : Table} {key text : String} {value : Value}

theorem unsupported_eq_nil_iff_others (hget : (Table.flatten table "").get? key = some value)
    (htext : valueText? value = some text) :
    unsupported (Table.flatten table "") = [] ↔ OthersSupported table key := by
  rw [unsupported_eq_nil_iff (Table.keys_nodup_flatten table "")]
  constructor
  · intro h path other heffective _
    exact h _ other (Table.get?_flatten_iff_effective.mpr ⟨path, heffective, rfl⟩)
  · intro h other found hfound
    by_cases hsame : other = key
    · subst hsame
      rw [hget] at hfound
      obtain rfl := Option.some.inj hfound
      simp [htext]
    · obtain ⟨path, heffective, rfl⟩ := Table.get?_flatten_iff_effective.mp hfound
      exact h path found heffective hsame

/-- A list of texts never is why a table is refused. -/
theorem isOk_ofTable_iff_others (hget : (Table.flatten table "").get? key = some value)
    (htext : valueText? value = some text) :
    (ofTable table "").isOk ↔ OthersSupported table key := by
  rw [← unsupported_eq_nil_iff_others hget htext, ofTable, textsOfFlat_eq]
  cases unsupported (Table.flatten table "") <;> simp [Except.isOk, Except.toBool]

theorem get?_ofTable (hget : (Table.flatten table "").get? key = some value)
    (htext : valueText? value = some text) {texts : Entries String}
    (htexts : ofTable table "" = .ok texts) : texts.get? key = some text := by
  obtain ⟨-, rfl⟩ := ofTable_eq_ok_iff.mp htexts
  exact get?_supported hget htext

end Properties

namespace PolicyConfig

open Properties

/-- The properties of a configuration are those of their table, as far as these have
a text. -/
theorem properties_of_ofTable {fields table : Table} {config : PolicyConfig}
    (hproperties : Entries.get? fields "properties" = some (.table table))
    (hconfig : ofTable fields = .ok config) :
    config.properties = supported (Table.flatten table "") := by
  have hverdict := (decides_properties fields).ok config hconfig
  rw [hproperties, Field.orDefault, propertiesField_table, joined_eq, entriesOf_joined] at hverdict
  split at hverdict
  · exact (Except.ok.inj hverdict).symm
  · cases hverdict

theorem issuesAt_properties_eq_nil_iff {fields table : Table}
    (hproperties : Entries.get? fields "properties" = some (.table table)) :
    Checked.issuesAt ["properties"] (ofTable fields) = [] ↔
      unsupported (Table.flatten table "") = [] := by
  rw [(decides_properties fields).issues, hproperties, Field.orDefault, propertiesField_table,
    joined_eq, entriesOf_joined, Checked.issues_under]
  split <;> simp_all [Checked.issues]

end PolicyConfig

open Properties

/-- A list of context patterns that are filled and have no blanks stands in a leaf of a table,
the last one that spells the key `camelContext.<action>`, in a policy file or in the
properties of a configuration. The table is not refused for it, the value of the key is the
patterns with blanks between them, and every source over the table compiles the key to one
policy, which has exactly these patterns. Another order and repetitions make no other
policy. -/
theorem pattern_lists_survive_text {table : Table} {path : List String} {action : String}
    {items : List String} (haction : Dialect.Segment action) (hfilled : items ≠ [])
    (hitems : ∀ item ∈ items, Text.Unbroken item.toList)
    (hgiven : Table.Effective table path (.list (items.map .string)))
    (hkey : Table.dotted "" path = Text.join "." ["camelContext", action]) :
    let key := Text.join "." ["camelContext", action]
    ∃ policy : Policy,
      (∃ patterns : ValueSet, policy.scopes = [⟨.context, .severalValues, patterns, none, none⟩] ∧
        ∀ pattern, pattern ∈ patterns.toList ↔ pattern ∈ items) ∧
      (∀ others : List String, (∀ item, item ∈ others ↔ item ∈ items) → ∀ lenient,
        Listing.compileEntry lenient key (.string (Text.join " " others)) = .compiled policy) ∧
      (∀ texts, Properties.ofTable table "" = .ok texts →
        texts.get? key = some (Text.join " " items)) ∧
      (∀ (host : Host) file, host.loadToml file = .ok table →
        ((PropertySource.openFile host file).isOk ↔ OthersSupported table key) ∧
        ∀ source notices, PropertySource.openFile host file = .ok (source, notices) →
          source.listing.Makes key policy) ∧
      ∀ fields, Entries.get? fields "properties" = some (.table table) →
        (Checked.issuesAt ["properties"] (PolicyConfig.ofTable fields) = [] ↔
          OthersSupported table key) ∧
        ∀ config, PolicyConfig.ofTable fields = .ok config →
          config.properties.get? key = some (Text.join " " items) ∧
          (PropertySource.ofTexts config.properties).listing.Makes key policy := by
  intro key
  have hflat : (Table.flatten table "").get? key = some (.list (items.map .string)) :=
    Table.get?_flatten_iff_effective.mpr ⟨path, hgiven, hkey⟩
  have htext := valueText?_texts items
  have hcompile := Listing.compileEntry_join haction hfilled hitems
  refine ⟨⟨Dialect.actionOf action, [.byContexts items], some key⟩,
    ⟨ValueSet.ofList items, rfl, fun pattern => ValueSet.mem_ofList⟩, ?_, ?_, ?_, ?_⟩
  · intro others hothers lenient
    have hnonempty : others ≠ [] := by
      obtain ⟨item, hitem⟩ := List.exists_mem_of_ne_nil items hfilled
      exact List.ne_nil_of_mem ((hothers item).mpr hitem)
    rw [← Scope.byContexts_eq_iff.mpr hothers]
    exact Listing.compileEntry_join haction hnonempty
      (fun item hitem => hitems item ((hothers item).mp hitem)) lenient
  · exact fun texts => get?_ofTable hflat htext
  · intro host file hload
    rw [PropertySource.openFile_of_table hload, ← isOk_ofTable_iff_others hflat htext]
    cases htexts : Properties.ofTable table "" with
    | error fault => simp [Except.isOk, Except.toBool]
    | ok texts =>
      refine ⟨by simp [Except.isOk, Except.toBool], ?_⟩
      rintro source notices ⟨⟩
      exact Listing.makes_of_text (get?_ofTable hflat htext htexts) hcompile
  · intro fields hproperties
    refine ⟨?_, fun config hconfig => ?_⟩
    · rw [PolicyConfig.issuesAt_properties_eq_nil_iff hproperties,
        unsupported_eq_nil_iff_others hflat htext]
    · have hvalue : config.properties.get? key = some (Text.join " " items) := by
        rw [PolicyConfig.properties_of_ofTable hproperties hconfig]
        exact get?_supported hflat htext
      refine ⟨hvalue, ?_⟩
      rw [PropertySource.listing_ofTexts (.ofText "") config.properties]
      exact Listing.makes_of_text hvalue hcompile

/-- Two patterns, one of them twice, beside another key in the properties of a
configuration. -/
theorem pattern_lists_survive_text_of_repeated_pattern :
    let patterns := ["orders-*", "audit", "orders-*"]
    let table : Table := [("camelContext", .table [("exclude", .list (patterns.map .string))]),
      ("endpoint.include", .string "jms:*")]
    let config : PolicyConfig := ⟨.memory, none,
      [("camelContext.exclude", "orders-* audit orders-*"), ("endpoint.include", "jms:*")], false⟩
    PolicyConfig.ofTable [("properties", .table table)] = .ok config ∧
      config.properties.get? "camelContext.exclude" = some (Text.join " " patterns) ∧
      ∃ policy : Policy, ∃ found : ValueSet,
        policy.scopes = [⟨.context, .severalValues, found, none, none⟩] ∧
        (∀ pattern, pattern ∈ found.toList ↔ pattern ∈ patterns) ∧
        Listing.compileEntry false "camelContext.exclude" (.string "audit orders-*") =
          .compiled policy ∧
        (PropertySource.ofTexts config.properties).listing.Makes "camelContext.exclude" policy := by
  intro patterns table config
  have hconfig : PolicyConfig.ofTable [("properties", .table table)] = .ok config := rfl
  have haction : Dialect.Segment "exclude" := ⟨by decide, by decide⟩
  have hgiven : Table.Effective table ["camelContext", "exclude"] (.list (patterns.map .string)) :=
    ⟨[], [(["endpoint.include"], .string "jms:*")], rfl, List.forall_mem_singleton.mpr (by decide)⟩
  have hunbroken : ∀ pattern ∈ patterns, Text.Unbroken pattern.toList := by
    have hruns : patterns.all (fun pattern => decide (pattern.toList ≠ []) &&
        pattern.toList.all fun c => !Text.isBlank c) = true := by decide
    intro pattern hpattern
    have hrun := List.all_eq_true.mp hruns pattern hpattern
    obtain ⟨hnonempty, hunblank⟩ := Bool.and_eq_true_iff.mp hrun
    exact ⟨of_decide_eq_true hnonempty, by simpa using hunblank⟩
  obtain ⟨policy, ⟨found, hscopes, hfound⟩, hothers, -, -, hproperties⟩ :=
    pattern_lists_survive_text haction (by decide) hunbroken hgiven rfl
  obtain ⟨hvalue, hmakes⟩ := (hproperties _ rfl).2 config hconfig
  refine ⟨hconfig, hvalue, policy, found, hscopes, hfound, ?_, hmakes⟩
  exact hothers ["audit", "orders-*"] (by simp [patterns]) false

end EventPolicy
