import EventPolicy.Compiler.Basic
import EventPolicy.Logging
import EventPolicy.Settings.Store
import EventPolicy.Source.Basic

/-!
Starting an application: settings decide the logging, the property source and
the compiler. Logging is set up before the source is made, so the notices of a
source that cannot be made are still told.
-/

namespace EventPolicy

def Settings.loggingSetup (settings : Settings) : Logging :=
  .ofNames settings.logging.level settings.logging.format settings.logging.redacts

/-- What a start tells, with the source and the compiler if it succeeds. -/
structure StartReport where
  logging : Logging
  notices : List Notice
  result : Except CreationError (PropertySource × Compiler)

/-- A source and a compiler over it, from a configuration. -/
def Compiler.create (host : Host) (config : PolicyConfig) :
    List Notice × Except CreationError (PropertySource × Compiler) :=
  match PropertySource.create host config with
  | (notices, .ok source) => (notices, .ok (source, .fresh config.lenient 0))
  | (notices, .error error) => (notices, .error error)

def Settings.start (settings : Settings) (host : Host) : StartReport :=
  match Compiler.create host settings.policy with
  | (notices, .ok made) =>
    let started := Notice.started settings.applicationName settings.policy.backend.spelling
      settings.policy.lenient
    ⟨settings.loggingSetup, notices ++ [started], .ok made⟩
  | (notices, .error error) => ⟨settings.loggingSetup, notices, .error error⟩

end EventPolicy
