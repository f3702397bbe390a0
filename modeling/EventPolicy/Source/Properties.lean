import EventPolicy.Table.Flatten
import EventPolicy.Text.Quoted
import EventPolicy.Text.Segment

/-!
Properties written as tables. Policy keys are dotted, so a table of them
nests; flattening gives the keys back. The value of a key is a text or a list
of texts, which stands for its items with a blank between them.
-/

namespace EventPolicy

/-- A key whose value is neither a text nor a list of texts, with the kind of
the value. -/
structure UnsupportedValue where
  key : String
  kind : String
  deriving DecidableEq, Repr

def UnsupportedValue.message (fault : UnsupportedValue) : String :=
  "Policy key " ++ Text.quoted fault.key ++
    " must have a string or array-of-strings value, got " ++ fault.kind

namespace Properties

/-- The text of a property value: a text itself, or the items of a list of
texts with a blank between them. -/
def valueText? : Value → Option String
  | .string text => some text
  | .list items => (Value.textsOf items).map (Text.join " ")
  | _ => none

/-- The texts of flat properties, up to the first value that has none. -/
def textsOfFlat : List (String × Value) → Except UnsupportedValue (Entries String)
  | [] => .ok []
  | (key, value) :: rest =>
    match valueText? value with
    | none => .error ⟨key, value.kindName⟩
    | some text => (textsOfFlat rest).map ((key, text) :: ·)

/-- The properties of a nested table, below a prefix. -/
def ofTable (table : Table) (above : String) : Except UnsupportedValue (Entries String) :=
  textsOfFlat (Table.flatten table above)

/-- A flat table in which each list of texts is made a text and every other
value is left as it is. -/
def joined (table : Table) : Table :=
  (Table.flatten table "").map fun (key, value) =>
    match valueText? value with
    | some text => (key, .string text)
    | none => (key, value)

end Properties

end EventPolicy
