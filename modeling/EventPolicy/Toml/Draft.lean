import EventPolicy.Value

/-!
A document that is being read. Besides its root table, a draft remembers which
tables may no longer be opened: those declared by a header, and the values
written in one piece, below which nothing may be added. Tables that dotted
keys made are declared when the next header starts.
-/

namespace EventPolicy.Toml

/-- A path of names from the root of the document. -/
abbrev KeyPath := List String

/-- A document that is being read. -/
structure Draft where
  root : Table
  declared : List KeyPath
  sealed : List KeyPath
  pending : List KeyPath

namespace Draft

def empty : Draft := ⟨[], [], [], []⟩

/-- Changes the table at the end of a path. Missing tables on the way are made;
where the way leads through a list, it goes on in the list's last table, if
lists may be passed. -/
def changeAt (throughLists : Bool) (change : Table → Option Table) :
    KeyPath → Table → Option Table
  | [], entries => change entries
  | name :: path, entries =>
    match Entries.get? entries name with
    | none =>
      (changeAt throughLists change path []).map fun inner =>
        Entries.insert entries name (.table inner)
    | some (.table inner) =>
      (changeAt throughLists change path inner).map fun inner =>
        Entries.insert entries name (.table inner)
    | some (.list items) =>
      if throughLists then
        match items.getLast? with
        | some (.table inner) =>
          (changeAt throughLists change path inner).map fun inner =>
            Entries.insert entries name (.list (items.dropLast ++ [.table inner]))
        | _ => none
      else none
    | some _ => none

/-- Adds a name that is not there yet. -/
def addNew (name : String) (value : Value) (entries : Table) : Option Table :=
  if Entries.has entries name then none else some (Entries.insert entries name value)

/-- Adds an empty table at the end of the list with this name, which is made
if it is missing. -/
def appendTable (name : String) (entries : Table) : Option Table :=
  match Entries.get? entries name with
  | none => some (Entries.insert entries name (.list [.table []]))
  | some (.list items) => some (Entries.insert entries name (.list (items ++ [.table []])))
  | some _ => none

/-- Whether a path lies at or below a value written in one piece. -/
def isSealed (sealed : List KeyPath) (path : KeyPath) : Bool :=
  sealed.any fun above => above.isPrefixOf path

def declarePending (draft : Draft) : Draft :=
  { draft with declared := draft.pending ++ draft.declared, pending := [] }

def openTable (draft : Draft) (path : KeyPath) : Option Draft := do
  if draft.declared.contains path || isSealed draft.sealed path then none
  else
    let root ← changeAt true some path draft.root
    return { draft with root, declared := path :: draft.declared }

/-- Opens a new table at the end of a list of tables by a header. What was
said about tables below the path concerned an earlier table of the list. -/
def openListTable (draft : Draft) (path : KeyPath) : Option Draft := do
  if isSealed draft.sealed path then none
  else
    let name ← path.getLast?
    let root ← changeAt true (appendTable name) path.dropLast draft.root
    let outside := fun other => !path.isPrefixOf other
    return { draft with
      root
      declared := path :: draft.declared.filter outside
      sealed := draft.sealed.filter outside }

/-- Adds a value under a dotted key below the table of the current header. -/
def addEntry (draft : Draft) (header key : KeyPath) (value : Value) : Option Draft := do
  let name ← key.getLast?
  let opened := (List.range (key.length - 1)).map fun i => header ++ key.take (i + 1)
  let above := header ++ key.dropLast
  if opened.any draft.declared.contains || isSealed draft.sealed above then none
  else
    let root ← changeAt true (addNew name value) above draft.root
    let sealed := match value with
      | .table _ | .list _ => (header ++ key) :: draft.sealed
      | _ => draft.sealed
    return { draft with root, sealed, pending := opened ++ draft.pending }

end Draft

end EventPolicy.Toml
