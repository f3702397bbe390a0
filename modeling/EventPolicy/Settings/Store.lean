import EventPolicy.Config.Basic
import EventPolicy.Host
import EventPolicy.Settings.Variables

/-!
Settings from their layers, and the store that keeps them. Arguments lie over
the variables of the environment, and these over the configuration files. The
store keeps the settings that were first made from the files until they are
asked for anew, and the files' table until another one is laid in.
-/

namespace EventPolicy

/-- Why settings were not made. -/
inductive SettingsError where
  | load (error : LoadError)
  | unreadable (fault : Variables.UnreadableVariable)
  | invalid (issues : List Issue)
  deriving DecidableEq, Repr

/-- Settings and their number. Two are the same object exactly when their
numbers are equal. -/
structure IssuedSettings where
  number : Nat
  settings : Settings
  deriving DecidableEq, Repr

/-- The layer of the configuration files, the kept settings, and how many
settings have been made. -/
structure SettingsStore where
  fileLayer : Table
  kept : Option IssuedSettings
  issued : Nat

namespace Settings

/-- The layers of settings laid over each other. -/
def layered (fileLayer variableLayer arguments : Table) : Table :=
  Table.merge fileLayer (Table.merge variableLayer arguments)

/-- The arguments by field. An argument is for the field that its name is in
small letters, and of several for one field the first counts. -/
def argumentLayer (arguments : Table) : Table :=
  Variables.settingsFields.filterMap fun (field, _) =>
    (List.find? (fun (name, _) => Text.lower name = field) arguments).map fun (_, value) =>
      (field, value)

/-- Settings from the layer of the files, an environment and arguments. -/
def ofLayers (fileLayer : Table) (environment : Entries String) (arguments : Table) :
    Except SettingsError Settings := do
  let variableLayer ← (Variables.layer environment).mapError .unreadable
  (ofTable (layered fileLayer variableLayer (argumentLayer arguments))).mapError .invalid

end Settings

namespace SettingsStore

def empty : SettingsStore := ⟨[], none, 0⟩

/-- Makes settings from the layers, with arguments on top. -/
def make (store : SettingsStore) (environment : Entries String) (arguments : Table) :
    SettingsStore × Except SettingsError IssuedSettings :=
  match Settings.ofLayers store.fileLayer environment arguments with
  | .ok settings => ({ store with issued := store.issued + 1 }, .ok ⟨store.issued, settings⟩)
  | .error error => (store, .error error)

def setFileLayer (store : SettingsStore) (layer : Table) : SettingsStore :=
  { store with fileLayer := layer }

/-- The kept settings, or else settings made from the files, which are kept. -/
def get (store : SettingsStore) (host : Host) :
    SettingsStore × Except SettingsError IssuedSettings :=
  match store.kept with
  | some kept => (store, .ok kept)
  | none =>
    match host.loadConfig with
    | .error error => (store, .error (.load error))
    | .ok layer =>
      match (store.setFileLayer layer).make host.environment [] with
      | (store, .ok made) => ({ store with kept := some made }, .ok made)
      | (store, .error error) => (store, .error error)

/-- Drops the kept settings and gets them anew. -/
def reload (store : SettingsStore) (host : Host) :
    SettingsStore × Except SettingsError IssuedSettings :=
  { store with kept := none }.get host

end SettingsStore

end EventPolicy
