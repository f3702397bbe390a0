import EventPolicy.Dialect
import EventPolicy.Path
import EventPolicy.Value

/-!
Notices: what the library tells a log. Each notice is a cause with its data;
`Notice.record` gives it a level, a name and fields. The time that a build
took is measured by the host, so a record only says that it is to be told.
-/

namespace EventPolicy

/-- How much a record matters, from least to most. -/
inductive Level where
  | debug
  | info
  | warning
  | error
  | critical
  deriving DecidableEq, Repr

def Level.name : Level → String
  | .debug => "debug"
  | .info => "info"
  | .warning => "warning"
  | .error => "error"
  | .critical => "critical"

def Level.rank : Level → Nat
  | .debug => 10
  | .info => 20
  | .warning => 30
  | .error => 40
  | .critical => 50

def Level.all : List Level := [.debug, .info, .warning, .error, .critical]

/-- What is written to a log: a level, the name of the event, its fields in
order, and whether the elapsed time is told after them. -/
structure Record where
  level : Level
  event : String
  fields : Table
  timed : Bool

/-- What the library tells a log. -/
inductive Notice where
  | policySetInvalidated
  | policyKeySkipped (key qualifier : String)
  | malformedPolicyKey (key : String) (reason : Malformation)
  | policySetCompiled (policies skipped : Nat)
  | policyFileLoaded (path : Path) (keys : Nat)
  | creatingMemorySource (keys : Nat)
  | creatingFileSource (path : String)
  | started (application source : String) (lenient : Bool)
  deriving DecidableEq, Repr

def Notice.record : Notice → Record
  | .policySetInvalidated => ⟨.debug, "policy_set_invalidated", [], false⟩
  | .policyKeySkipped key qualifier =>
    ⟨.debug, "policy_key_skipped", [("key", .string key), ("qualifier", .string qualifier)], false⟩
  | .malformedPolicyKey key reason =>
    ⟨.warning, "malformed_policy_key",
      [("key", .string key), ("reason", .string reason.message)], false⟩
  | .policySetCompiled policies skipped =>
    ⟨.info, "policy_set_compiled",
      [("policies", .int policies), ("skipped_keys", .int skipped)], true⟩
  | .policyFileLoaded path keys =>
    ⟨.info, "policy_file_loaded", [("path", .string path.text), ("keys", .int keys)], false⟩
  | .creatingMemorySource keys =>
    ⟨.info, "creating_property_source",
      [("backend", .string "inmemory"), ("keys", .int keys)], false⟩
  | .creatingFileSource path =>
    ⟨.info, "creating_property_source",
      [("backend", .string "toml"), ("path", .string path)], false⟩
  | .started application source lenient =>
    ⟨.info, "bai_bootstrapped",
      [("app_name", .string application), ("source", .string source),
       ("skip_malformed_keys", .bool lenient)], false⟩

end EventPolicy
