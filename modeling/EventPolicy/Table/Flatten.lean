import EventPolicy.Value

/-!
Nested tables as dotted keys. The leaves of a table are the values that are
not tables, each with the path of names that leads to it; `flatten` names each
leaf by its path with dots between the names. Where two leaves get the same
key, the first fixes the place and the last the value.
-/

namespace EventPolicy.Table

/-- The dotted key of a name below a prefix. An empty prefix adds nothing. -/
def dottedKey (above name : String) : String :=
  if above = "" then name else above ++ "." ++ name

mutual

/-- The flat form of a value that has the given key. -/
def flattenValue (key : String) : Value → Table
  | .table entries => flattenInto [] key entries
  | value => [(key, value)]

/-- Adds the flat forms of the entries below a prefix to what is done, table
by table. -/
def flattenInto (done : Table) (above : String) : List (String × Value) → Table
  | [] => done
  | (name, value) :: rest =>
    flattenInto (Entries.insertAll done (flattenValue (dottedKey above name) value)) above rest

end

/-- The leaves of a table under their dotted keys below a prefix. -/
def flatten (table : Table) (above : String) : Table := flattenInto [] above table

mutual

/-- The leaves of a value, each with the path that leads to it. -/
def leavesOfValue : Value → List (List String × Value)
  | .table entries => leaves entries
  | value => [([], value)]

/-- The leaves of a table, each with the path that leads to it, in order. -/
def leaves : List (String × Value) → List (List String × Value)
  | [] => []
  | (name, value) :: rest =>
    (leavesOfValue value).map (fun leaf => (name :: leaf.1, leaf.2)) ++ leaves rest

end

end EventPolicy.Table
