import EventPolicy.Value

/-!
Layers of tables. `merge` lays one table over another: a table meets a table
name by name, and anything else replaces what stands below it. `find?` follows
a path of names, which is how statements about layers are made.
-/

namespace EventPolicy.Table

/-- The value at the end of a path of names. -/
def find? : Table → List String → Option Value
  | entries, [] => some (.table entries)
  | entries, [name] => entries.get? name
  | entries, name :: next :: path =>
    match entries.get? name with
    | some (.table inner) => find? inner (next :: path)
    | _ => none

mutual

/-- What a value becomes when it is laid over the value below it. -/
def overlay (below : Option Value) : Value → Value
  | .table entries =>
    match below with
    | some (.table base) => .table (mergeInto base entries)
    | _ => .table entries
  | value => value

/-- Lays the entries over a table, one after the other. -/
def mergeInto (base : Table) : List (String × Value) → Table
  | [] => base
  | (name, value) :: rest =>
    mergeInto (Entries.insert base name (overlay (Entries.get? base name) value)) rest

end

/-- A table laid over another. The names of the lower table come first, in
their order, then the names that only the upper one has. -/
def merge (base override : Table) : Table := mergeInto base override

end EventPolicy.Table
