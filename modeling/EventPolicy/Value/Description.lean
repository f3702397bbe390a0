import EventPolicy.Number.Shortest
import EventPolicy.Text.Quoted
import EventPolicy.Value

/-!
The descriptive text of a value, as console lines show it: texts in quotes,
lists in square brackets, tuples in round ones, tables in curly ones. The plain
text differs from it for what stands by itself: a text shows no quotes, and a
date or a time its digits.
-/

namespace EventPolicy.Value

mutual

def describe : Value → String
  | .null => "None"
  | .bool flag => if flag then "True" else "False"
  | .int number => Number.intToDecimal number
  | .float number => number.text
  | .string text => Text.quoted text
  | .moment instant => instant.describe
  | .date day => day.describe
  | .time clock => clock.describe
  | .list items => "[" ++ ", ".intercalate (describeItems items) ++ "]"
  | .tuple [item] => "(" ++ item.describe ++ ",)"
  | .tuple items => "(" ++ ", ".intercalate (describeItems items) ++ ")"
  | .table entries => "\x7b" ++ ", ".intercalate (describeEntries entries) ++ "\x7d"

/-- The descriptive texts of the items of a list or a tuple. -/
def describeItems : List Value → List String
  | [] => []
  | item :: rest => item.describe :: describeItems rest

/-- The descriptive texts of the entries of a table. -/
def describeEntries : List (String × Value) → List String
  | [] => []
  | (name, value) :: rest => (Text.quoted name ++ ": " ++ value.describe) :: describeEntries rest

end

def plain : Value → String
  | .string text => text
  | .moment instant => instant.textWith " "
  | .date day => day.text
  | .time clock => clock.text
  | value => value.describe

end EventPolicy.Value
