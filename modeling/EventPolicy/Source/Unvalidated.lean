import EventPolicy.Source.Basic
import EventPolicy.Value.Description

/-!
Sources from arguments that nobody validated. A missing argument takes its
default, and any other stands as it is: the properties stay nested, the values
of the keys need not be texts, and a path is no more than a text, so no file is
opened by it.
-/

namespace EventPolicy

/-- The arguments of a configuration as they are. -/
structure UnvalidatedConfig where
  backend : Value
  path : Value
  properties : Value

namespace UnvalidatedConfig

def ofTable (arguments : Table) : UnvalidatedConfig :=
  let given (name : String) (default : Value) : Value :=
    (Entries.get? arguments name).getD default
  { backend := given "source" (.string PolicyConfig.default.backend.spelling)
    path := given "path" .null
    properties := given "properties" (.table []) }

/-- The entry that an item of a list stands for: an item of two parts is a key
and its value. -/
def entryOf (place : Nat) (item : Value) : Except ValueFault (String × Value) :=
  match item.parts? with
  | none => .error (.notSequence place)
  | some [key, value] => .ok (key.plain, value)
  | some parts => .error (.notPair place parts.length)

/-- The entries that the items of a list stand for. -/
def entriesOf (place : Nat) : List Value → Except ValueFault (List (String × Value))
  | [] => .ok []
  | item :: rest => do
    let first ← entryOf place item
    let others ← entriesOf (place + 1) rest
    return first :: others

/-- The keys and values of a source in memory: the entries of a table, or those
that the parts of another value stand for. -/
def propertiesOf (parts : List Value) : Value → Except ValueFault (Entries Value)
  | .table entries => .ok entries
  | _ => (entriesOf 0 parts).map Entries.ofList

end UnvalidatedConfig

namespace PropertySource

/-- The source that unvalidated arguments ask for. The notices are told even if
it cannot be made. -/
def createUnvalidated (config : UnvalidatedConfig) :
    List Notice × Except CreationError PropertySource :=
  match Backend.all.find? fun backend => config.backend.asText? = some backend.spelling with
  | some .memory =>
    match config.properties.parts? with
    | none => ([], .error (.unfit (.noLength config.properties.fullKindName)))
    | some parts =>
      let made := (UnvalidatedConfig.propertiesOf parts config.properties).map .memory
      ([.creatingMemorySource parts.length], made.mapError .unfit)
  | some .file =>
    match config.path with
    | .null => ([], .error .missingPath)
    | path =>
      ([.creatingFileSource path.plain],
        .error (.unfit (.noMember path.fullKindName "exists")))
  | none => ([], .error (.unsupportedBackend config.backend.plain))

end PropertySource

end EventPolicy
