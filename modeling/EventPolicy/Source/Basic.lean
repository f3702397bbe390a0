import EventPolicy.Compiler.Build
import EventPolicy.Config.Basic
import EventPolicy.Host

/-!
Property sources: where a compiler gets its keys and values. A source in
memory can be changed key by key; a source over a policy file reads the file
when it is made and again on demand; a listed source offers whatever keys and
values it was given. The values of a source in memory are texts if it is made of
texts, as every validated configuration has it.
-/

namespace EventPolicy

/-- A supplier of keys and values. -/
inductive PropertySource where
  | memory (properties : Entries Value)
  | file (path : Path) (properties : Entries String)
  | listed (listing : Listing)

/-- Why a policy file cannot supply its keys and values. -/
inductive SourceError where
  | missing (path : Path)
  | unreadable (path : Path) (cause : LoadError)
  | unsupported (fault : UnsupportedValue)
  | outside (cause : LoadError)
  deriving DecidableEq, Repr

/-- The message about a policy file that cannot be read, before the cause. -/
def SourceError.unreadableMessage (path : Path) (cause : String) : String :=
  "Invalid policy file " ++ path.text ++ ": " ++ cause

/-- Why a source was not made. -/
inductive CreationError where
  | missingPath
  | unsupportedBackend (name : String)
  | source (error : SourceError)
  | unfit (fault : ValueFault)
  deriving DecidableEq, Repr

/-- The message about a configuration for which there is no source. -/
def CreationError.message? : CreationError → Option String
  | .missingPath => some "The toml property source backend requires a path"
  | .unsupportedBackend name => some ("Unsupported property source backend: " ++ name)
  | .source _ => none
  | .unfit fault => some fault.message

namespace PropertySource

/-- The source in memory with texts as values. -/
def ofTexts (properties : Entries String) : PropertySource :=
  .memory (properties.mapValues .string)

def listing : PropertySource → Listing
  | .memory properties => .ofEntries properties
  | .file _ properties => .ofTexts properties.keys properties.get?
  | .listed listing => listing

def keys (source : PropertySource) : List String := source.listing.keys

def get? (source : PropertySource) (key : String) : Option Value := source.listing.value? key

def readFile (host : Host) (path : Path) : Except SourceError (Entries String) :=
  match host.loadToml path with
  | .error (.missingFile path) => .error (.missing path)
  | .error (.isDirectory path) => .error (.outside (.isDirectory path))
  | .error .tooLong => .error (.outside .tooLong)
  | .error cause => .error (.unreadable path cause)
  | .ok table => (Properties.ofTable table "").mapError .unsupported

/-- A source over a policy file, with the notice of its reading. -/
def openFile (host : Host) (path : Path) : Except SourceError (PropertySource × List Notice) := do
  let properties ← readFile host path
  return (.file path properties, [.policyFileLoaded path properties.length])

/-- Reads the policy file of a source again: the source afterwards, and the
notices or the error. The source is replaced as a whole or not at all. -/
def reload (source : PropertySource) (host : Host) :
    PropertySource × Except SourceError (List Notice) :=
  match source with
  | .file path _ =>
    match openFile host path with
    | .ok (reloaded, notices) => (reloaded, .ok notices)
    | .error error => (source, .error error)
  | source => (source, .ok [])

/-- Gives a key of a source in memory a value. -/
def set (source : PropertySource) (key : String) (value : Value) : PropertySource :=
  match source with
  | .memory properties => .memory (properties.insert key value)
  | source => source

/-- Removes a key from a source in memory, and tells whether it was there with
a value other than null. -/
def remove (source : PropertySource) (key : String) : PropertySource × Bool :=
  match source with
  | .memory properties =>
    let found := match properties.get? key with
      | none => false
      | some .null => false
      | some _ => true
    (.memory (properties.erase key), found)
  | source => (source, false)

/-- The source that a configuration asks for. The notices are told even if it
cannot be made. -/
def create (host : Host) (config : PolicyConfig) :
    List Notice × Except CreationError PropertySource :=
  match config.backend with
  | .memory => ([.creatingMemorySource config.properties.length], .ok (.ofTexts config.properties))
  | .file =>
    match config.path with
    | none => ([], .error .missingPath)
    | some path =>
      match openFile host path with
      | .ok (source, notices) => (.creatingFileSource path.text :: notices, .ok source)
      | .error error => ([.creatingFileSource path.text], .error (.source error))

end PropertySource

end EventPolicy
