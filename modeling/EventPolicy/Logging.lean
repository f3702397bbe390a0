import EventPolicy.Json.Writer
import EventPolicy.Notice
import EventPolicy.Redaction
import EventPolicy.Value.Fault

/-!
Logging: which records are written, whether they are redacted, and their form.
A line of JSON holds the fields in order; a line for a console starts with the
time, the level and the event and lists the other fields by name. What a
console shows below that line has to be a text; a record that asks for another
value there is not written.
-/

namespace EventPolicy

/-- The readings that the host's clock gives to a record. -/
structure Clock where
  timestamp : String
  elapsed : Value

/-- The form of a line. -/
inductive LineFormat where
  | json
  | console
  deriving DecidableEq, Repr

/-- What is written, and how. -/
structure Logging where
  threshold : Level
  format : LineFormat
  redacts : Bool
  deriving DecidableEq, Repr

namespace Logging

/-- The level that a name stands for; a name that is none stands for `info`. -/
def thresholdOf (name : String) : Level :=
  match Text.asciiUpper? name with
  | some "DEBUG" => .debug
  | some "WARNING" => .warning
  | some "ERROR" => .error
  | some "CRITICAL" => .critical
  | _ => .info

/-- The logging of a level, a form and a choice of redaction. Every form other
than `json` is the console's. -/
def ofNames (level format : String) (redacts : Bool) : Logging :=
  ⟨thresholdOf level, if format = "json" then .json else .console, redacts⟩

/-- The names of the arguments that set up logging. -/
def argumentNames : List String := ["level", "format", "redact_credentials"]

/-- The logging that a table of arguments asks for. The level has to be a text. -/
def ofArguments (arguments : Table) : Except ValueFault Logging :=
  let given (name : String) (default : Value) : Value :=
    (Entries.get? arguments name).getD default
  match (Entries.keys arguments).find? fun name => name ∉ argumentNames with
  | some name => .error (.unknownArgument "setup_logging" name)
  | none =>
    match given "level" (.string "INFO") with
    | .string level =>
      .ok (ofNames level ((given "format" (.string "json")).asText?.getD "")
        (given "redact_credentials" (.bool true)).isTrue)
    | value => .error (.noMember value.fullKindName "upper")

/-- The fields of a record as they are written: the record's own, the elapsed
time if it is told, and then the event, its level and the time, each of which
takes the place of a field of its name. -/
def fieldsOf (clock : Clock) (record : Record) : Table :=
  let own := if record.timed then Entries.insert record.fields "elapsed_ms" clock.elapsed
    else record.fields
  let withEvent := Entries.insert own "event" (.string record.event)
  let withLevel := Entries.insert withEvent "level" (.string record.level.name)
  Entries.insert withLevel "timestamp" (.string clock.timestamp)

/-- A text with blanks up to a width. -/
def padRight (width : Nat) (text : String) : String :=
  text ++ String.ofList (List.replicate (width - text.length) ' ')

/-- Whether a text needs quotes on a console line. -/
def needsQuotes (text : String) : Bool :=
  text.toList.any fun c => c = ' ' || c = '\t' || c = '=' || c = '\r' || c = '\n' || c = '"' ||
    c = '\''

def consoleValue : Value → String
  | .string text => if needsQuotes text then Text.quoted text else text
  | value => value.describe

/-- The fields at the start of a console line, which it shows without their
names: one without a name, the time, the level, the event and the names of a
logger. -/
def consoleColumns : List (String × (Value → String)) :=
  [("", fun value => "=" ++ consoleValue value), ("timestamp", Value.plain),
   ("level", fun value => "[" ++ padRight 9 value.plain ++ "]"),
   ("event", fun value => padRight 30 value.plain),
   ("logger", fun value => "[" ++ value.plain ++ "]"),
   ("logger_name", fun value => "[" ++ value.plain ++ "]")]

/-- The fields that say what follows a console line. -/
def consoleTrailers : List String := ["stack", "exception", "exc_info"]

/-- The fields of a console line that are shown with their names, by name. -/
def namedFields (fields : Table) : Table :=
  let named := fields.filter fun (name, _) =>
    !(consoleColumns.map Prod.fst).contains name && !consoleTrailers.contains name
  named.mergeSort fun a b => decide (a.1 ≤ b.1)

/-- A text without the blanks at its end. -/
def trimRight (text : String) : String :=
  String.ofList (text.toList.reverse.dropWhile (· = ' ')).reverse

def consoleHead (fields : Table) : String :=
  let columns := consoleColumns.filterMap fun (name, layout) =>
    (Entries.get? fields name).map layout
  let named := (namedFields fields).map fun (name, value) => name ++ "=" ++ consoleValue value
  trimRight (" ".intercalate ((columns ++ named).filter (· ≠ "")))

/-- The text of a field that follows a console line, if it is there. -/
def trailer? (fields : Table) (name : String) : Except ValueFault (Option String) :=
  match (Entries.get? fields name).getD .null with
  | .null => .ok none
  | .string text => .ok (some text)
  | value => .error (.notJoined value.fullKindName)

/-- The line between a stack and what was raised. -/
def ruler : String := String.ofList (List.replicate 79 '=')

/-- A console line and what follows it: the stack, parted by a ruler from what
was raised if anything was, and the text of that. -/
def consoleLine (fields : Table) : Except ValueFault String := do
  let stack ← trailer? fields "stack"
  let exception ← trailer? fields "exception"
  let isRaised := exception.isSome || ((Entries.get? fields "exc_info").getD .null).isTrue
  let stackPart := match stack with
    | some text => "\n" ++ text ++ (if isRaised then "\n\n" ++ ruler ++ "\n" else "")
    | none => ""
  let exceptionPart := match exception with
    | some text => "\n" ++ text
    | none => ""
  return consoleHead fields ++ stackPart ++ exceptionPart

/-- What is written for a record, if its level is high enough. -/
def render (logging : Logging) (clock : Clock) (record : Record) :
    Except ValueFault (Option String) :=
  if record.level.rank < logging.threshold.rank then .ok none
  else
    let fields := fieldsOf clock record
    let shown := if logging.redacts then Redaction.redact fields else fields
    match logging.format with
    | .json => .ok (some (Json.write (.table shown)))
    | .console => (consoleLine shown).map some

end Logging

end EventPolicy
