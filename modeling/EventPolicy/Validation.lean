import EventPolicy.Path
import EventPolicy.Text.LetterCase
import EventPolicy.Value

/-!
Validation of tables into typed values. Every problem of a table is collected
as an issue with its place: first those of the known fields in the order of
their declaration, then the unknown fields in the order of the table. A check
of the whole is made only when all of its fields are in order.
-/

namespace EventPolicy

/-- What is wrong with a value at its place. -/
inductive IssueKind where
  | missing
  | unknownField
  | frozen
  | choice (spellings : List String)
  | literal (spellings : List String)
  | notText
  | unreadableBool
  | notBool
  | notPath
  | notTable
  | notRecord (record : String)
  | notSet
  | notSequence
  | tooShort (message : String)
  | rule (message : String)
  deriving DecidableEq, Repr

/-- A problem and its place, the names and indices from the outside in. -/
structure Issue where
  place : List String
  kind : IssueKind
  deriving DecidableEq, Repr

namespace IssueKind

/-- Spellings in quotes, with "or" before the last. -/
def listSpellings : List String → String
  | [] => ""
  | [last] => "'" ++ last ++ "'"
  | [first, last] => "'" ++ first ++ "' or '" ++ last ++ "'"
  | first :: rest => "'" ++ first ++ "', " ++ listSpellings rest

def code : IssueKind → String
  | .missing => "missing"
  | .unknownField => "extra_forbidden"
  | .frozen => "frozen_instance"
  | .choice _ => "enum"
  | .literal _ => "literal_error"
  | .notText => "string_type"
  | .unreadableBool => "bool_parsing"
  | .notBool => "bool_type"
  | .notPath => "path_type"
  | .notTable => "dict_type"
  | .notRecord _ => "model_type"
  | .notSet => "frozen_set_type"
  | .notSequence => "tuple_type"
  | .tooShort _ => "too_short"
  | .rule _ => "value_error"

def message : IssueKind → String
  | .missing => "Field required"
  | .unknownField => "Extra inputs are not permitted"
  | .frozen => "Instance is frozen"
  | .choice spellings => "Input should be " ++ listSpellings spellings
  | .literal spellings => "Input should be " ++ listSpellings spellings
  | .notText => "Input should be a valid string"
  | .unreadableBool => "Input should be a valid boolean, unable to interpret input"
  | .notBool => "Input should be a valid boolean"
  | .notPath => "Input is not a valid path for <class 'pathlib.Path'>"
  | .notTable => "Input should be a valid dictionary"
  | .notRecord record => "Input should be a valid dictionary or instance of " ++ record
  | .notSet => "Input should be a valid frozenset"
  | .notSequence => "Input should be a valid tuple"
  | .tooShort message => message
  | .rule message => "Value error, " ++ message

end IssueKind

/-- A validated value, or every problem that was found. -/
abbrev Checked (α : Type) := Except (List Issue) α

namespace Checked

variable {α β : Type}

/-- A single problem at the place of the value itself. -/
def issue (kind : IssueKind) : Checked α := .error [⟨[], kind⟩]

def issues : Checked α → List Issue
  | .ok _ => []
  | .error found => found

def under (name : String) (result : Checked α) : Checked α :=
  result.mapError fun found => found.map fun issue => { issue with place := name :: issue.place }

def both (first : Checked α) (second : Checked β) : Checked (α × β) :=
  match first, second with
  | .ok a, .ok b => .ok (a, b)
  | first, second => .error (issues first ++ issues second)

/-- The first result, unless there are further problems. -/
def butFor (result : Checked α) (further : List Issue) : Checked α :=
  if further = [] then result else .error (issues result ++ further)

/-- Applies a check to each item, at the place of its index, and collects the
problems of all. -/
def eachFrom (check : Value → Checked α) (index : Nat) : List Value → Checked (List α)
  | [] => .ok []
  | item :: rest =>
    (both (under (Number.toDecimal index) (check item)) (eachFrom check (index + 1) rest)).map
      fun (first, others) => first :: others

/-- Both results are there exactly when each is. -/
theorem both_eq_ok_iff {first : Checked α} {second : Checked β} {a : α} {b : β} :
    both first second = .ok (a, b) ↔ first = .ok a ∧ second = .ok b := by
  cases first <;> cases second <;> simp [both]

end Checked

namespace Field

/-- The value of a field that has to be there. -/
def required {α : Type} (fields : Table) (name : String) (check : Value → Checked α) :
    Checked α :=
  Checked.under name <|
    match Entries.get? fields name with
    | some value => check value
    | none => Checked.issue .missing

/-- The value of a field, or a default if it is not there. -/
def withDefault {α : Type} (fields : Table) (name : String) (default : α)
    (check : Value → Checked α) : Checked α :=
  Checked.under name <|
    match Entries.get? fields name with
    | some value => check value
    | none => .ok default

/-- An issue for each field that is not among the known ones. -/
def unknown (fields : Table) (known : List String) : List Issue :=
  (Entries.keys fields).filterMap fun name =>
    if name ∈ known then none else some ⟨[name], .unknownField⟩

def text (value : Value) : Checked String :=
  match value with
  | .string text => .ok text
  | _ => Checked.issue .notText

/-- Nothing for null, and otherwise what the check makes of the value. -/
def optional {α : Type} (check : Value → Checked α) (value : Value) : Checked (Option α) :=
  match value with
  | .null => .ok none
  | _ => (check value).map some

/-- One of the values of a closed vocabulary, by its spelling. -/
def choice {α : Type} (all : List α) (spelling : α → String) (value : Value) : Checked α :=
  match value with
  | .string text =>
    match all.find? (fun member => spelling member = text) with
    | some member => .ok member
    | none => Checked.issue (.choice (all.map spelling))
  | _ => Checked.issue (.choice (all.map spelling))

/-- One of a few fixed texts, read as what it stands for. -/
def literal {α : Type} (all : List α) (spelling : α → String) (value : Value) : Checked α :=
  match value with
  | .string text =>
    match all.find? (fun member => spelling member = text) with
    | some member => .ok member
    | none => Checked.issue (.literal (all.map spelling))
  | _ => Checked.issue (.literal (all.map spelling))

def trueWords : List String := ["true", "t", "yes", "y", "on", "1"]

def falseWords : List String := ["false", "f", "no", "n", "off", "0"]

/-- A text with its ASCII capitals made small. -/
def asciiLower (text : String) : String := String.ofList (text.toList.map Char.toLower)

/-- Half of the number of the signed integers of 64 bits. -/
def signedRange : Int := 0x8000000000000000

/-- A zero or a one as a truth value. Any other number cannot be read as one if
it is in range, and is of the wrong kind otherwise. -/
def wholeBool (number : Int) (inRange : Bool) : Checked Bool :=
  if number = 0 then .ok false
  else if number = 1 then .ok true
  else Checked.issue (if inRange then .unreadableBool else .notBool)

/-- A truth value: itself, a zero or a one, or a word for it in any case. A
floating-point number counts if it is whole; the least signed integer of 64
bits is in range as an integer alone. -/
def bool (value : Value) : Checked Bool :=
  match value with
  | .bool flag => .ok flag
  | .int number => wholeBool number (decide (-signedRange ≤ number ∧ number < signedRange))
  | .float number =>
    match number.toInt? with
    | some whole => wholeBool whole (decide (-signedRange < whole ∧ whole < signedRange))
    | none => Checked.issue .notBool
  | .string text =>
    if asciiLower text ∈ trueWords then .ok true
    else if asciiLower text ∈ falseWords then .ok false
    else Checked.issue .unreadableBool
  | _ => Checked.issue .notBool

def path (value : Value) : Checked Path :=
  match value with
  | .string text => .ok (.ofText text)
  | _ => Checked.issue .notPath

def record {α : Type} (name : String) (check : Table → Checked α) (value : Value) : Checked α :=
  match value with
  | .table fields => check fields
  | _ => Checked.issue (.notRecord name)

end Field

end EventPolicy
