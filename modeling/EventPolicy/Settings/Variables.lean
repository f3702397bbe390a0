import EventPolicy.Json.Reader
import EventPolicy.Table.Merge
import EventPolicy.Text.LetterCase
import EventPolicy.Text.Word

/-!
The layer of settings that the variables of the environment make. A variable
named after a field gives the field, as JSON where the field holds fields of
its own; a variable whose name goes on with double underscores gives what is
nested in a field. Names are compared in small letters.
-/

namespace EventPolicy.Variables

/-- What a field of the settings holds: a single value, a free table, or
fields of its own. -/
inductive FieldShape where
  | single
  | table
  | fields (members : List (String × FieldShape))

def settingsFields : List (String × FieldShape) :=
  [("app_name", .single), ("debug", .single),
   ("policy", .fields [("source", .single), ("path", .single), ("properties", .table),
     ("skip_malformed_keys", .single)]),
   ("observability", .fields [("logging", .fields [("level", .single), ("format", .single),
     ("redact_credentials", .single)])])]

/-- What every name of a variable for the settings starts with. -/
def variablePrefix : String := "bai_"

def nestingMark : List Char := ['_', '_']

/-- A variable whose text is not JSON where JSON is needed, by its field. -/
structure UnreadableVariable where
  field : String
  deriving DecidableEq, Repr

/-- The message about a variable that cannot be read. -/
def UnreadableVariable.message (fault : UnreadableVariable) : String :=
  "error parsing value for field \"" ++ fault.field ++ "\" from source \"EnvSettingsSource\""

/-- The variables with their names in small letters. -/
def lowered (environment : Entries String) : Entries String :=
  Entries.ofList (environment.map fun (name, value) => (Text.lower name, value))

/-- The member of a shape that a name stands for: by the member's own name or
by the name that it would have as a variable. -/
def member? (shape : FieldShape) (name : String) : Option FieldShape :=
  match shape with
  | .fields members =>
    (members.find? fun (known, _) =>
      known = Text.lower name || variablePrefix ++ known = Text.lower name).map Prod.snd
  | _ => none

/-- The shape at the end of a path of names. -/
def memberAt? (shape : FieldShape) : List String → Option FieldShape
  | [] => some shape
  | name :: path => (member? shape name).bind fun inner => memberAt? inner path

def FieldShape.isNested : FieldShape → Bool
  | .single => false
  | _ => true

/-- A text between its double underscores. The steps are bounded by the length
of the text. -/
def splitNestingFrom : Nat → List Char → List (List Char)
  | 0, text => [text]
  | steps + 1, text =>
    match Text.aroundWord? nestingMark text with
    | none => [text]
    | some (before, after) => before :: splitNestingFrom steps after

/-- The names that a text holds between double underscores. -/
def splitNesting (text : List Char) : List String :=
  (splitNestingFrom text.length text).map String.ofList

/-- Gives the end of a path a value. Tables on the way are made if they are
missing; a value on the way that is no table keeps its place and the new one
is dropped. -/
def assign (table : Table) : List String → Value → Table
  | [], _ => table
  | [name], value => Entries.insert table name value
  | name :: next :: path, value =>
    match Entries.get? table name with
    | none => Entries.insert table name (.table (assign [] (next :: path) value))
    | some (.table inner) => Entries.insert table name (.table (assign inner (next :: path) value))
    | some _ => table

/-- The value that a nested variable gives: JSON where its path leads to
something nested and the text is not empty, and otherwise the text. -/
def nestedValue (field : String) (shape : FieldShape) (path : List String) (text : String) :
    Except UnreadableVariable Value :=
  match memberAt? shape path with
  | some found =>
    if found.isNested ∧ text ≠ "" then
      match Json.read? text with
      | some value => .ok value
      | none => .error ⟨field⟩
    else .ok (.string text)
  | none => .ok (.string text)

/-- The table of the nested variables of a field, in the order of the variables. -/
def nestedInto (field : String) (shape : FieldShape) (table : Table) :
    Entries String → Except UnreadableVariable Table
  | [] => .ok table
  | (name, text) :: rest =>
    match Text.afterWord? ((variablePrefix ++ field).toList ++ nestingMark) name.toList with
    | none => nestedInto field shape table rest
    | some path => do
      let names := splitNesting path
      let value ← nestedValue field shape names text
      nestedInto field shape (assign table names value) rest

mutual

/-- A value of a shape whose members are named as the shape names them. -/
def renamedValue (shape : FieldShape) : Value → Value
  | .table entries =>
    match shape with
    | .fields members => .table (renamedInto members [] entries)
    | _ => .table entries
  | value => value

/-- Adds entries to a table, each under the name that its member has. -/
def renamedInto (members : List (String × FieldShape)) (done : Table) :
    List (String × Value) → Table
  | [] => done
  | (name, value) :: rest =>
    match members.find? (fun (known, _) => known = Text.lower name) with
    | some (known, shape) =>
      renamedInto members (Entries.insert done known (renamedValue shape value)) rest
    | none => renamedInto members (Entries.insert done name value) rest

end

/-- What the variables give for a field, if they give anything. A field with
fields of its own is JSON, overlaid by its nested variables if it is a table;
null stands for nothing. -/
def fieldValue (given : Entries String) (field : String) (shape : FieldShape) :
    Except UnreadableVariable (Option Value) := do
  let own := Entries.get? given (variablePrefix ++ field)
  if shape.isNested then
    match own with
    | none =>
      let nested ← nestedInto field shape [] given
      return if nested = [] then none else some (renamedValue shape (.table nested))
    | some text =>
      match Json.read? text with
      | none => throw ⟨field⟩
      | some .null => return none
      | some (.table entries) =>
        let nested ← nestedInto field shape [] given
        return some (renamedValue shape (.table (Table.merge entries nested)))
      | some value => return some value
  else return own.map .string

/-- The values that the variables give for fields, in the order of the fields. -/
def layerOf (given : Entries String) :
    List (String × FieldShape) → Except UnreadableVariable Table
  | [] => .ok []
  | (field, shape) :: rest => do
    let value ← fieldValue given field shape
    let others ← layerOf given rest
    return match value with
      | some value => (field, value) :: others
      | none => others

/-- The layer of settings that an environment makes. -/
def layer (environment : Entries String) : Except UnreadableVariable Table :=
  layerOf (lowered environment) settingsFields

end EventPolicy.Variables
