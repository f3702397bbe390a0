import EventPolicy.Config.Basic
import EventPolicy.Proofs.Table.Lookup

/-!
What validation makes of the settings that are single values. Each stands at a path
of names, and the validation of all settings says of it what the check of the value
found there says, or takes the default if nothing is found: a success holds what the
check gave, and the issues with its place are those of the check.
-/

namespace EventPolicy

namespace Checked

variable {α β γ : Type}

/-- The issues of a result whose places start with a path. -/
def issuesAt (path : List String) (result : Checked α) : List Issue :=
  result.issues.filter fun issue => path.isPrefixOf issue.place

theorem issues_under (name : String) (result : Checked α) :
    (under name result).issues =
      result.issues.map fun issue => { issue with place := name :: issue.place } := by
  cases result <;> rfl

theorem issues_both (first : Checked α) (second : Checked β) :
    (both first second).issues = first.issues ++ second.issues := by
  cases first <;> cases second <;> simp [both, issues]

theorem issuesAt_both (path : List String) (first : Checked α) (second : Checked β) :
    issuesAt path (both first second) = issuesAt path first ++ issuesAt path second := by
  simp [issuesAt, issues_both]

theorem issuesAt_under_of_ne {name other : String} (h : name ≠ other) (path : List String)
    (result : Checked α) : issuesAt (name :: path) (under other result) = [] := by
  simp [issuesAt, issues_under, h]

/-- A result says of the value at a path what the verdict says: a success has the
verdict's value, and the issues with this place are those of the verdict. -/
structure Decides (result : Checked β) (path : List String) (verdict : Checked α) (value : β → α) :
    Prop where
  ok : ∀ all, result = .ok all → verdict = .ok (value all)
  issues : issuesAt path result = verdict.issues

theorem Decides.self (result : Checked α) : Decides result [] result id :=
  ⟨fun _ h => h, by simp [issuesAt]⟩

variable {result : Checked β} {other : Checked γ} {path : List String} {verdict : Checked α}
  {value : β → α}

theorem Decides.under (h : Decides result path verdict value) (name : String) :
    Decides (under name result) (name :: path) (under name verdict) value := by
  constructor
  case ok =>
    intro all hall
    cases result with
    | error found => cases hall
    | ok found =>
      cases hall
      rw [h.ok all rfl]
      rfl
  case issues =>
    rw [issues_under, ← h.issues, issuesAt, issuesAt, issues_under, List.filter_map]
    congr 1
    simp [Function.comp_def, List.isPrefixOf]

theorem Decides.both_left (h : Decides result path verdict value)
    (hother : issuesAt path other = []) :
    Decides (both result other) path verdict fun pair => value pair.1 :=
  ⟨fun pair hpair => h.ok pair.1 (both_eq_ok_iff.1 hpair).1,
    by rw [issuesAt_both, hother, List.append_nil, h.issues]⟩

theorem Decides.both_right (h : Decides result path verdict value)
    (hother : issuesAt path other = []) :
    Decides (both other result) path verdict fun pair => value pair.2 :=
  ⟨fun pair hpair => h.ok pair.2 (both_eq_ok_iff.1 hpair).2,
    by rw [issuesAt_both, hother, List.nil_append, h.issues]⟩

/-- What is done with a success adds no issue at the path and keeps the value. -/
theorem Decides.bind (h : Decides result path verdict value) {next : β → Checked γ} {last : γ → α}
    (hkept : ∀ found all, next found = .ok all → last all = value found)
    (hsilent : ∀ found, issuesAt path (next found) = []) :
    Decides (result >>= next) path verdict last := by
  cases result with
  | error found => exact ⟨nofun, h.issues⟩
  | ok found =>
    have hverdict := h.ok found rfl
    constructor
    case ok =>
      intro all hall
      rw [hverdict, hkept found all hall]
    case issues =>
      rw [hverdict]
      exact hsilent found

end Checked

namespace Field

variable {α : Type}

/-- The value of a field, if it is given, or the default. -/
def orDefault (default : α) (check : Value → Checked α) : Option Value → Checked α
  | some value => check value
  | none => .ok default

theorem withDefault_eq (fields : Table) (name : String) (default : α) (check : Value → Checked α) :
    withDefault fields name default check =
      Checked.under name (orDefault default check (Entries.get? fields name)) := by
  cases hget : Entries.get? fields name <;> simp [withDefault, orDefault, hget]

theorem decides_withDefault (fields : Table) (name : String) (default : α)
    (check : Value → Checked α) :
    Checked.Decides (withDefault fields name default check) [name]
      (Checked.under name (orDefault default check (Entries.get? fields name))) id := by
  rw [withDefault_eq]
  exact (Checked.Decides.self _).under name

theorem issuesAt_withDefault_of_ne {name other : String} (h : name ≠ other) (path : List String)
    (fields : Table) (default : α) (check : Value → Checked α) :
    Checked.issuesAt (name :: path) (withDefault fields other default check) = [] :=
  Checked.issuesAt_under_of_ne h path _

/-- A record of settings that is not given is as good as an empty one. -/
theorem withDefault_record {fields : Table} {name : String}
    (hfields : Table.AtMostTable (fields.get? name)) {default : α} {check : Table → Checked α}
    (hdefault : check [] = .ok default) (record : String) :
    withDefault fields name default (Field.record record check) =
      Checked.under name (check (Table.tableAt fields name)) := by
  rw [withDefault, Table.tableAt]
  rcases hfields.cases with hnone | ⟨inner, htable⟩
  · simp [hnone, hdefault]
  · simp [htable, Field.record]

end Field

/-- The settings that are single values. -/
inductive SingleSetting where
  | applicationName
  | debug
  | source
  | path
  | lenient
  | level
  | format
  | redacts
  deriving DecidableEq, Repr

namespace SingleSetting

/-- What a setting holds. -/
@[reducible] def Held : SingleSetting → Type
  | .applicationName => String
  | .debug => Bool
  | .source => Backend
  | .path => Option Path
  | .lenient => Bool
  | .level => String
  | .format => String
  | .redacts => Bool

/-- The path of names to a setting. -/
def place : SingleSetting → List String
  | .applicationName => ["app_name"]
  | .debug => ["debug"]
  | .source => ["policy", "source"]
  | .path => ["policy", "path"]
  | .lenient => ["policy", "skip_malformed_keys"]
  | .level => ["observability", "logging", "level"]
  | .format => ["observability", "logging", "format"]
  | .redacts => ["observability", "logging", "redact_credentials"]

/-- What a setting is when it is not given. -/
def default : (setting : SingleSetting) → setting.Held
  | .applicationName => "bai"
  | .debug => false
  | .source => .memory
  | .path => none
  | .lenient => false
  | .level => "INFO"
  | .format => "json"
  | .redacts => true

/-- The check of a given value. -/
def check : (setting : SingleSetting) → Value → Checked setting.Held
  | .applicationName => Field.text
  | .debug => Field.bool
  | .source => Field.literal Backend.all Backend.spelling
  | .path => Field.optional Field.path
  | .lenient => Field.bool
  | .level => Field.literal LoggingConfig.levels id
  | .format => Field.literal LoggingConfig.formats id
  | .redacts => Field.bool

/-- Where validated settings hold it. -/
def held : (setting : SingleSetting) → Settings → setting.Held
  | .applicationName => Settings.applicationName
  | .debug => Settings.debug
  | .source => fun settings => settings.policy.backend
  | .path => fun settings => settings.policy.path
  | .lenient => fun settings => settings.policy.lenient
  | .level => fun settings => settings.logging.level
  | .format => fun settings => settings.logging.format
  | .redacts => fun settings => settings.logging.redacts

/-- What a finding at the place of a setting comes to, with issues at that place. -/
def verdict (setting : SingleSetting) (found : Option Value) : Checked setting.Held :=
  setting.place.foldr Checked.under (Field.orDefault setting.default setting.check found)

end SingleSetting

namespace PolicyConfig

theorem ofTable_nil : ofTable [] = .ok default := rfl

theorem pathGiven_eq_ok {config checked : PolicyConfig} (h : pathGiven config = .ok checked) :
    checked = config := by
  unfold pathGiven at h
  split at h
  · cases h
  · cases h
    rfl

/-- The rule of the whole is told at the place of the configuration, above its fields. -/
theorem issuesAt_pathGiven (name : String) (path : List String) (config : PolicyConfig) :
    Checked.issuesAt (name :: path) (pathGiven config) = [] := by
  unfold pathGiven
  split <;> simp [Checked.issuesAt, Checked.issues, Checked.issue]

/-- What the fields decide together, the configuration decides. -/
theorem decides_ofTable {α : Type} {fields : Table} {name : String} {verdict : Checked α}
    {value : PolicyConfig → α}
    (h : Checked.Decides
      (Checked.both
        (Field.withDefault fields "source" default.backend
          (Field.literal Backend.all Backend.spelling))
        (Checked.both
          (Field.withDefault fields "path" default.path (Field.optional Field.path))
          (Checked.both
            (Field.withDefault fields "properties" default.properties propertiesField)
            (Field.withDefault fields "skip_malformed_keys" default.lenient Field.bool))))
      [name] verdict
      fun (backend, path, properties, lenient) => value ⟨backend, path, properties, lenient⟩) :
    Checked.Decides (ofTable fields) [name] verdict value := by
  refine h.bind ?_ ?_
  · rintro ⟨backend, path, properties, lenient⟩ config hconfig
    rw [pathGiven_eq_ok hconfig]
  · rintro ⟨backend, path, properties, lenient⟩
    exact issuesAt_pathGiven name [] _

theorem decides_source (fields : Table) :
    Checked.Decides (ofTable fields) ["source"]
      (Checked.under "source" (Field.orDefault .memory
        (Field.literal Backend.all Backend.spelling) (Entries.get? fields "source")))
      PolicyConfig.backend := by
  refine decides_ofTable ((Field.decides_withDefault fields "source" _ _).both_left ?_)
  simp [Checked.issuesAt_both, Field.issuesAt_withDefault_of_ne]

theorem decides_path (fields : Table) :
    Checked.Decides (ofTable fields) ["path"]
      (Checked.under "path" (Field.orDefault none (Field.optional Field.path)
        (Entries.get? fields "path")))
      PolicyConfig.path := by
  refine decides_ofTable
    (((Field.decides_withDefault fields "path" _ _).both_left ?_).both_right ?_)
  · simp [Checked.issuesAt_both, Field.issuesAt_withDefault_of_ne]
  · simp [Field.issuesAt_withDefault_of_ne]

theorem decides_properties (fields : Table) :
    Checked.Decides (ofTable fields) ["properties"]
      (Checked.under "properties" (Field.orDefault [] propertiesField
        (Entries.get? fields "properties")))
      PolicyConfig.properties := by
  refine decides_ofTable
    ((((Field.decides_withDefault fields "properties" _ _).both_left ?_).both_right ?_).both_right
      ?_) <;>
    simp [Field.issuesAt_withDefault_of_ne]

theorem decides_lenient (fields : Table) :
    Checked.Decides (ofTable fields) ["skip_malformed_keys"]
      (Checked.under "skip_malformed_keys" (Field.orDefault false Field.bool
        (Entries.get? fields "skip_malformed_keys")))
      PolicyConfig.lenient := by
  refine decides_ofTable
    ((((Field.decides_withDefault fields "skip_malformed_keys" _ _).both_right ?_).both_right
      ?_).both_right ?_) <;>
    simp [Field.issuesAt_withDefault_of_ne]

end PolicyConfig

namespace LoggingConfig

theorem ofTable_nil : ofTable [] = .ok default := rfl

theorem ofObservability_nil : ofObservability [] = .ok default := rfl

/-- What the fields decide together, the configuration decides. -/
theorem decides_ofTable {α : Type} {fields : Table} {name : String} {verdict : Checked α}
    {value : LoggingConfig → α}
    (h : Checked.Decides
      (Checked.both (Field.withDefault fields "level" default.level (Field.literal levels id))
        (Checked.both (Field.withDefault fields "format" default.format (Field.literal formats id))
          (Field.withDefault fields "redact_credentials" default.redacts Field.bool)))
      [name] verdict
      fun (level, format, redacts) => value ⟨level, format, redacts⟩) :
    Checked.Decides (ofTable fields) [name] verdict value := by
  refine h.bind ?_ ?_
  · rintro ⟨level, format, redacts⟩ config ⟨⟩
    rfl
  · rintro ⟨level, format, redacts⟩
    rfl

theorem decides_level (fields : Table) :
    Checked.Decides (ofTable fields) ["level"]
      (Checked.under "level" (Field.orDefault "INFO" (Field.literal levels id)
        (Entries.get? fields "level")))
      LoggingConfig.level := by
  refine decides_ofTable ((Field.decides_withDefault fields "level" _ _).both_left ?_)
  simp [Checked.issuesAt_both, Field.issuesAt_withDefault_of_ne]

theorem decides_format (fields : Table) :
    Checked.Decides (ofTable fields) ["format"]
      (Checked.under "format" (Field.orDefault "json" (Field.literal formats id)
        (Entries.get? fields "format")))
      LoggingConfig.format := by
  refine decides_ofTable
    (((Field.decides_withDefault fields "format" _ _).both_left ?_).both_right ?_) <;>
    simp [Field.issuesAt_withDefault_of_ne]

theorem decides_redacts (fields : Table) :
    Checked.Decides (ofTable fields) ["redact_credentials"]
      (Checked.under "redact_credentials" (Field.orDefault true Field.bool
        (Entries.get? fields "redact_credentials")))
      LoggingConfig.redacts := by
  refine decides_ofTable
    (((Field.decides_withDefault fields "redact_credentials" _ _).both_right ?_).both_right ?_) <;>
    simp [Field.issuesAt_withDefault_of_ne]

end LoggingConfig

namespace Settings

open Table

variable {α : Type} {table : Table} {path : List String} {name : String} {verdict : Checked α}

/-- What the fields decide together, the settings decide. -/
theorem decides_ofTable {value : Settings → α}
    (h : Checked.Decides
      (Checked.both (Field.withDefault table "app_name" "bai" Field.text)
        (Checked.both (Field.withDefault table "debug" false Field.bool)
          (Checked.both
            (Field.withDefault table "policy" PolicyConfig.default
              (Field.record "PolicyConfig" PolicyConfig.ofTable))
            (Field.withDefault table "observability" LoggingConfig.default
              (Field.record "ObservabilityConfig" LoggingConfig.ofObservability)))))
      path verdict
      fun (name, debug, policy, logging) => value ⟨name, debug, policy, logging⟩) :
    Checked.Decides (ofTable table) path verdict value := by
  refine h.bind ?_ ?_
  · rintro ⟨name, debug, policy, logging⟩ settings ⟨⟩
    rfl
  · rintro ⟨name, debug, policy, logging⟩
    rfl

theorem decides_policy {value : PolicyConfig → α}
    (hpolicy : AtMostTable (Entries.get? table "policy"))
    (h : Checked.Decides (PolicyConfig.ofTable (tableAt table "policy")) [name] verdict value) :
    Checked.Decides (ofTable table) ["policy", name] (Checked.under "policy" verdict)
      fun settings => value settings.policy := by
  have hrecord := h.under "policy"
  rw [← Field.withDefault_record hpolicy PolicyConfig.ofTable_nil "PolicyConfig"] at hrecord
  refine decides_ofTable (((hrecord.both_left ?_).both_right ?_).both_right ?_) <;>
    simp [Field.issuesAt_withDefault_of_ne]

theorem decides_logging {value : LoggingConfig → α}
    (hobservability : AtMostTable (Entries.get? table "observability"))
    (hlogging : AtMostTable (Entries.get? (tableAt table "observability") "logging"))
    (h : Checked.Decides (LoggingConfig.ofTable (tableAt (tableAt table "observability") "logging"))
      [name] verdict value) :
    Checked.Decides (ofTable table) ["observability", "logging", name]
      (Checked.under "observability" (Checked.under "logging" verdict))
      fun settings => value settings.logging := by
  have hinner := h.under "logging"
  rw [← Field.withDefault_record hlogging LoggingConfig.ofTable_nil "LoggingConfig"] at hinner
  have hrecord := hinner.under "observability"
  rw [← LoggingConfig.ofObservability,
    ← Field.withDefault_record hobservability LoggingConfig.ofObservability_nil
      "ObservabilityConfig"] at hrecord
  refine decides_ofTable (((hrecord.both_right ?_).both_right ?_).both_right ?_) <;>
    simp [Field.issuesAt_withDefault_of_ne]

/-- Settings from a table hold and tell, of each single value, what its check makes
of the finding at its place. -/
theorem decides_single (hopen : ∀ setting : SingleSetting, OpenTo table setting.place)
    (setting : SingleSetting) :
    Checked.Decides (ofTable table) setting.place (setting.verdict (find? table setting.place))
      setting.held := by
  obtain ⟨hpolicy, -⟩ := hopen .source
  obtain ⟨hobservability, hlogging, -⟩ := hopen .level
  cases setting with
  | applicationName =>
    refine decides_ofTable ((Field.decides_withDefault table "app_name" _ _).both_left ?_)
    simp [Checked.issuesAt_both, Field.issuesAt_withDefault_of_ne]
  | debug =>
    refine decides_ofTable
      (((Field.decides_withDefault table "debug" _ _).both_left ?_).both_right ?_) <;>
      simp [Checked.issuesAt_both, Field.issuesAt_withDefault_of_ne]
  | source =>
    rw [SingleSetting.place, find?_cons_cons]
    exact decides_policy hpolicy (PolicyConfig.decides_source _)
  | path =>
    rw [SingleSetting.place, find?_cons_cons]
    exact decides_policy hpolicy (PolicyConfig.decides_path _)
  | lenient =>
    rw [SingleSetting.place, find?_cons_cons]
    exact decides_policy hpolicy (PolicyConfig.decides_lenient _)
  | level =>
    rw [SingleSetting.place, find?_cons_cons, find?_cons_cons]
    exact decides_logging hobservability hlogging (LoggingConfig.decides_level _)
  | format =>
    rw [SingleSetting.place, find?_cons_cons, find?_cons_cons]
    exact decides_logging hobservability hlogging (LoggingConfig.decides_format _)
  | redacts =>
    rw [SingleSetting.place, find?_cons_cons, find?_cons_cons]
    exact decides_logging hobservability hlogging (LoggingConfig.decides_redacts _)

end Settings

end EventPolicy
