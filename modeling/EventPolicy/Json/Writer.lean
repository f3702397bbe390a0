import EventPolicy.Value.Description

/-!
Values written as JSON on one line. Everything outside printable ASCII is
escaped, a character beyond sixteen bits as a pair of surrogates. A tuple is
written as a list, and a date or a time, for which JSON has no form, as its
descriptive text.
-/

namespace EventPolicy.Json

/-- A code unit of sixteen bits as an escape. -/
def unitEscape (unit : Nat) : String := "\\u" ++ Number.toHexWidth 4 unit

/-- A character between the quotes of a JSON string. -/
def escapedChar (c : Char) : String :=
  if c = '"' then "\\\""
  else if c = '\\' then "\\\\"
  else if c = '\n' then "\\n"
  else if c = '\r' then "\\r"
  else if c = '\t' then "\\t"
  else if c.toNat = 0x8 then "\\b"
  else if c.toNat = 0xc then "\\f"
  else if 0x20 ≤ c.toNat ∧ c.toNat ≤ 0x7e then String.ofList [c]
  else if c.toNat < 0x10000 then unitEscape c.toNat
  else
    let offset := c.toNat - 0x10000
    unitEscape (0xd800 + offset / 0x400) ++ unitEscape (0xdc00 + offset % 0x400)

def writeString (text : String) : String :=
  "\"" ++ String.join (text.toList.map escapedChar) ++ "\""

/-- A floating-point number as JSON, with names for the values that are not finite. -/
def writeFloat : Number.Binary64 → String
  | .nan => "NaN"
  | .infinite negative => if negative then "-Infinity" else "Infinity"
  | number => number.text

mutual

def write : Value → String
  | .null => "null"
  | .bool flag => if flag then "true" else "false"
  | .int number => Number.intToDecimal number
  | .float number => writeFloat number
  | .string text => writeString text
  | .moment instant => writeString instant.describe
  | .date day => writeString day.describe
  | .time clock => writeString clock.describe
  | .list items | .tuple items => "[" ++ ", ".intercalate (writeItems items) ++ "]"
  | .table entries => "\x7b" ++ ", ".intercalate (writeEntries entries) ++ "\x7d"

def writeItems : List Value → List String
  | [] => []
  | item :: rest => write item :: writeItems rest

def writeEntries : List (String × Value) → List String
  | [] => []
  | (name, value) :: rest => (writeString name ++ ": " ++ write value) :: writeEntries rest

end

end EventPolicy.Json
