import EventPolicy.Source.Properties
import EventPolicy.Validation

/-!
The configuration of the library and its validation: where policy keys come
from and how strictly they are compiled, how records are logged, and the
settings that hold both.
-/

namespace EventPolicy

/-- Where policy keys come from. -/
inductive Backend where
  | memory
  | file
  deriving DecidableEq, Repr

def Backend.spelling : Backend → String
  | .memory => "inmemory"
  | .file => "toml"

def Backend.all : List Backend := [.memory, .file]

/-- Where policy keys come from and how strictly they are compiled. -/
structure PolicyConfig where
  backend : Backend
  path : Option Path
  properties : Entries String
  lenient : Bool
  deriving DecidableEq, Repr

/-- The level of records, their form, and whether they are redacted. -/
structure LoggingConfig where
  level : String
  format : String
  redacts : Bool
  deriving DecidableEq, Repr

/-- The settings of an application that uses the library. -/
structure Settings where
  applicationName : String
  debug : Bool
  policy : PolicyConfig
  logging : LoggingConfig
  deriving DecidableEq, Repr

namespace PolicyConfig

def default : PolicyConfig := ⟨.memory, none, [], false⟩

/-- The properties of a configuration: a table of texts and lists of texts. -/
def propertiesField (value : Value) : Checked (Entries String) :=
  match value with
  | .table table => entriesOf (Properties.joined table)
  | _ => Checked.issue .notTable
where
  /-- The entries that are texts, or an issue for each that is not. -/
  entriesOf : List (String × Value) → Checked (Entries String)
    | [] => .ok []
    | (key, value) :: rest =>
      (Checked.both (Checked.under key (Field.text value)) (entriesOf rest)).map
        fun (text, others) => (key, text) :: others

def pathGiven (config : PolicyConfig) : Checked PolicyConfig :=
  if config.backend = .file ∧ config.path = none then
    Checked.issue (.rule "policy.path is required when policy.source is 'toml'")
  else .ok config

/-- A configuration from a table of arguments. Unknown fields are passed over. -/
def ofTable (fields : Table) : Checked PolicyConfig := do
  let backend := Field.withDefault fields "source" default.backend
    (Field.literal Backend.all Backend.spelling)
  let path := Field.withDefault fields "path" default.path (Field.optional Field.path)
  let properties := Field.withDefault fields "properties" default.properties propertiesField
  let lenient := Field.withDefault fields "skip_malformed_keys" default.lenient Field.bool
  let (backend, path, properties, lenient) ←
    Checked.both backend (Checked.both path (Checked.both properties lenient))
  pathGiven ⟨backend, path, properties, lenient⟩

end PolicyConfig

namespace LoggingConfig

def default : LoggingConfig := ⟨"INFO", "json", true⟩

def levels : List String := ["DEBUG", "INFO", "WARNING", "ERROR", "CRITICAL"]

def formats : List String := ["json", "console"]

/-- A configuration from a table of arguments. Unknown fields are passed over. -/
def ofTable (fields : Table) : Checked LoggingConfig := do
  let level := Field.withDefault fields "level" default.level (Field.literal levels id)
  let format := Field.withDefault fields "format" default.format (Field.literal formats id)
  let redacts := Field.withDefault fields "redact_credentials" default.redacts Field.bool
  let (level, format, redacts) ← Checked.both level (Checked.both format redacts)
  return ⟨level, format, redacts⟩

/-- The logging configuration from the table of observability settings. -/
def ofObservability (fields : Table) : Checked LoggingConfig :=
  Field.withDefault fields "logging" default (Field.record "LoggingConfig" ofTable)

end LoggingConfig

namespace Settings

/-- Settings from a table of arguments. Unknown fields are passed over. -/
def ofTable (fields : Table) : Checked Settings := do
  let name := Field.withDefault fields "app_name" "bai" Field.text
  let debug := Field.withDefault fields "debug" false Field.bool
  let policy := Field.withDefault fields "policy" PolicyConfig.default
    (Field.record "PolicyConfig" PolicyConfig.ofTable)
  let logging := Field.withDefault fields "observability" LoggingConfig.default
    (Field.record "ObservabilityConfig" LoggingConfig.ofObservability)
  let (name, debug, policy, logging) ←
    Checked.both name (Checked.both debug (Checked.both policy logging))
  return ⟨name, debug, policy, logging⟩

end Settings

end EventPolicy
