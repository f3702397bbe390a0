import EventPolicy.FileTree
import EventPolicy.Table.Merge
import EventPolicy.Toml.Reader

/-!
What the library reads from around it: files, the working directory and the
variables of the environment. The configuration is a default file, overlaid
by the file of the current environment if there is one.
-/

namespace EventPolicy

/-- Files, the working directory and the variables of the environment. -/
structure Host where
  files : FileTree
  workingDirectory : Place
  environment : Entries String

/-- Why a configuration file was not read. -/
inductive LoadError where
  | missingFile (path : Path)
  | missingDirectory (named : String)
  | missingDefault (path : Path)
  | isDirectory (path : Path)
  | tooLong
  | notUnicode
  | malformed
  | longInteger (digits : Nat)
  deriving DecidableEq, Repr

/-- The message of an error, for those whose wording is the library's own. -/
def LoadError.message? : LoadError → Option String
  | .missingFile path => some ("Configuration file not found: " ++ path.text)
  | .missingDirectory named => some ("Config directory not found: " ++ named)
  | .missingDefault path =>
    some ("Default configuration file not found: " ++ path.text ++
      ". Create config/default.toml or set BAI_CONFIG_DIR.")
  | .longInteger digits =>
    some ("Exceeds the limit (4300 digits) for integer string conversion: value has " ++
      Number.toDecimal digits ++
      " digits; use sys.set_int_max_str_digits() to increase the limit")
  | _ => none

namespace Host

def lookup (host : Host) (path : Path) : Except PathFault FileNode :=
  host.files.lookup host.workingDirectory path

def pathExists (host : Host) (path : Path) : Except LoadError Bool :=
  match host.lookup path with
  | .ok _ => .ok true
  | .error .absent => .ok false
  | .error .tooLong => .error .tooLong

/-- The table of a document in a file. -/
def loadToml (host : Host) (path : Path) : Except LoadError Table :=
  match host.lookup path with
  | .error .absent => .error (.missingFile path)
  | .error .tooLong => .error .tooLong
  | .ok .directory => .error (.isDirectory path)
  | .ok (.file content) =>
    match String.fromUTF8? content with
    | none => .error .notUnicode
    | some text =>
      match Toml.read text with
      | .ok table => .ok table
      | .error .malformed => .error .malformed
      | .error (.longInteger digits) => .error (.longInteger digits)

/-- The name of the variable that names the configuration directory. -/
def directoryVariable : String := "BAI_CONFIG_DIR"

/-- The name of the variable that names the current environment. -/
def environmentVariable : String := "BAI_ENV"

/-- The nearest directory entry `config`, sought upwards from a place. -/
def nearestConfig (host : Host) : Nat → Place → Option Place
  | 0, _ => none
  | levels + 1, place =>
    let candidate := place ++ ["config"]
    if (host.files.node? candidate).isSome then some candidate
    else host.nearestConfig levels place.dropLast

/-- The configuration directory: the one that the environment names, which has
to exist, or the nearest one from the working directory within five levels,
or else `config`. -/
def configDirectory (host : Host) : Except LoadError Path := do
  let named := (Entries.get? host.environment directoryVariable).getD ""
  if named = "" then
    match host.nearestConfig 5 host.workingDirectory with
    | some place => return ⟨.slash, place⟩
    | none => return .ofText "config"
  else
    let path := Path.ofText named
    if ← host.pathExists path then return path else throw (.missingDirectory named)

def environmentName (host : Host) : String :=
  (Entries.get? host.environment environmentVariable).getD "development"

/-- The configuration of the default file, overlaid by the file of the current
environment if there is one. -/
def loadConfig (host : Host) : Except LoadError Table := do
  let directory ← host.configDirectory
  let defaultPath := directory.child "default.toml"
  if !(← host.pathExists defaultPath) then throw (.missingDefault defaultPath)
  let config ← host.loadToml defaultPath
  let environmentPath := directory.append (.ofText (host.environmentName ++ ".toml"))
  if ← host.pathExists environmentPath then
    return Table.merge config (← host.loadToml environmentPath)
  else return config

end Host

end EventPolicy
