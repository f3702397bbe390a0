import EventPolicy.Number.Numeral
import EventPolicy.Text.Word
import EventPolicy.Value

/-!
Values read from JSON text. Besides JSON proper, `NaN`, `Infinity` and
`-Infinity` are numbers. A name that an object repeats keeps its first place
and takes its last value.
-/

namespace EventPolicy.Json

open Number

/-- The largest number of digits of an integer. -/
def maxIntegerDigits : Nat := 4300

/-- The text without the blanks that JSON allows between its tokens. -/
def skipBlanks (text : List Char) : List Char :=
  text.dropWhile fun c => c = ' ' || c = '\t' || c = '\n' || c = '\r'

/-- The code unit written by four hexadecimal digits. -/
def readUnit (text : List Char) : Option (Nat × List Char) :=
  let digits := text.take 4
  if digits.length = 4 ∧ digits.all (isDigitOf 16) then some (ofDigits 16 digits, text.drop 4)
  else none

/-- The character of an escape by number. Two units of a surrogate pair make
one character; a unit that stands for no character becomes the replacement
character. -/
def readNumbered (text : List Char) : Option (Char × List Char) := do
  let (unit, rest) ← readUnit text
  if 0xd800 ≤ unit ∧ unit < 0xdc00 then
    match (Text.afterWord? ['\\', 'u'] rest).bind readUnit with
    | some (low, after) =>
      if 0xdc00 ≤ low ∧ low < 0xe000 then
        return (Char.ofNat (0x10000 + (unit - 0xd800) * 0x400 + (low - 0xdc00)), after)
      else return ('\ufffd', rest)
    | none => return ('\ufffd', rest)
  else if 0xdc00 ≤ unit ∧ unit < 0xe000 then return ('\ufffd', rest)
  else return (Char.ofNat unit, rest)

/-- The character of an escape, read after the backslash. -/
def readEscape : List Char → Option (Char × List Char)
  | [] => none
  | c :: rest =>
    if c = '"' ∨ c = '\\' ∨ c = '/' then some (c, rest)
    else if c = 'b' then some ('\x08', rest)
    else if c = 'f' then some ('\x0c', rest)
    else if c = 'n' then some ('\n', rest)
    else if c = 'r' then some ('\r', rest)
    else if c = 't' then some ('\t', rest)
    else if c = 'u' then readNumbered rest
    else none

/-- The rest of a string after its opening quote, and what follows it. -/
def readString : Nat → List Char → Option (List Char × List Char)
  | 0, _ => none
  | _ + 1, [] => none
  | fuel + 1, c :: rest => do
    if c = '"' then return ([], rest)
    else if c = '\\' then
      let (d, after) ← readEscape rest
      let (text, after) ← readString fuel after
      return (d :: text, after)
    else if c.toNat < 0x20 then none
    else
      let (text, after) ← readString fuel rest
      return (c :: text, after)

/-- The number at the start of the text, and the rest. -/
def readNumber (text : List Char) : Option (Value × List Char) := do
  match ← takeNumeral ⟨false, false⟩ text with
  | (.integer value digits, rest) =>
    if maxIntegerDigits < digits then none else return (.int value, rest)
  | (.float value, rest) => return (.float value, rest)

/-- The value of a word other than `true`, `false` and `null` or of a number. -/
def readScalar (text : List Char) : Option (Value × List Char) :=
  match Text.afterWord? "null".toList text with
  | some rest => some (.null, rest)
  | none =>
  match Text.afterWord? "true".toList text with
  | some rest => some (.bool true, rest)
  | none =>
  match Text.afterWord? "false".toList text with
  | some rest => some (.bool false, rest)
  | none =>
  match Text.afterWord? "NaN".toList text with
  | some rest => some (.float .nan, rest)
  | none =>
  match Text.afterWord? "Infinity".toList text with
  | some rest => some (.float (.infinite false), rest)
  | none =>
  match Text.afterWord? "-Infinity".toList text with
  | some rest => some (.float (.infinite true), rest)
  | none => readNumber text

mutual

/-- The value at the start of the text, and the rest. -/
def readValue : Nat → List Char → Option (Value × List Char)
  | 0, _ => none
  | _ + 1, [] => none
  | fuel + 1, c :: rest => do
    if c = '"' then
      let (text, after) ← readString (rest.length + 1) rest
      return (.string (String.ofList text), after)
    else if c = '[' then
      match skipBlanks rest with
      | ']' :: after => return (.list [], after)
      | start =>
        let (items, after) ← readItems fuel start
        return (.list items, after)
    else if c = '\x7b' then
      match skipBlanks rest with
      | '\x7d' :: after => return (.table [], after)
      | start =>
        let (entries, after) ← readEntries fuel start
        return (.table (Entries.ofList entries), after)
    else readScalar (c :: rest)

/-- The items of a list up to its closing bracket, and the rest. -/
def readItems : Nat → List Char → Option (List Value × List Char)
  | 0, _ => none
  | fuel + 1, text => do
    let (item, after) ← readValue fuel text
    match skipBlanks after with
    | ',' :: more =>
      let (items, after) ← readItems fuel (skipBlanks more)
      return (item :: items, after)
    | ']' :: after => return ([item], after)
    | _ => none

/-- The entries of an object up to its closing bracket, and the rest. -/
def readEntries : Nat → List Char → Option (List (String × Value) × List Char)
  | 0, _ => none
  | fuel + 1, text => do
    let '"' :: start := text | none
    let (name, after) ← readString (start.length + 1) start
    let ':' :: after := skipBlanks after | none
    let (value, after) ← readValue fuel (skipBlanks after)
    let entry := (String.ofList name, value)
    match skipBlanks after with
    | ',' :: more =>
      let (entries, after) ← readEntries fuel (skipBlanks more)
      return (entry :: entries, after)
    | '\x7d' :: after => return ([entry], after)
    | _ => none

end

/-- The value that a whole text writes. Every step of the reader takes up a
character or opens one level, so twice the length bounds its steps. -/
def read? (text : String) : Option Value := do
  let start := skipBlanks text.toList
  let (value, rest) ← readValue (2 * start.length + 2) start
  if skipBlanks rest = [] then return value else none

end EventPolicy.Json
