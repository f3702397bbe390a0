import EventPolicy.Number.Digits
import EventPolicy.Text.Word

/-!
The small pieces of a TOML document: blanks, comments, strings and keys. Each
reader takes the text from a place on and returns what it read with the rest.
The line ends of the text are single line feeds.
-/

namespace EventPolicy.Toml

open Number

/-- Why a document cannot be read. -/
inductive Fault where
  | malformed
  | longInteger (digits : Nat)
  deriving DecidableEq, Repr

/-- A text with each line end of two characters made a single line feed. -/
def unifyLineEnds : List Char → List Char
  | [] => []
  | '\r' :: '\n' :: rest => '\n' :: unifyLineEnds rest
  | c :: rest => c :: unifyLineEnds rest

/-- Whether a character is a blank inside a line. -/
def isInlineBlank (c : Char) : Bool := c = ' ' || c = '\t'

/-- The text from its first character that is not a blank inside a line. -/
def skipInline (text : List Char) : List Char := text.dropWhile isInlineBlank

/-- The text from its first character that is neither a blank nor a line end. -/
def skipLines (text : List Char) : List Char :=
  text.dropWhile fun c => isInlineBlank c || c = '\n'

/-- Whether a character may not stand in a comment or in a string of one line. -/
def isControl (c : Char) : Bool := (c.toNat < 0x20 && c != '\t') || c.toNat == 0x7f

/-- Whether a character may not stand in a string of several lines. -/
def isControlInLines (c : Char) : Bool := isControl c && c != '\n'

/-- The rest after a comment, if there is one: the text from the next line end. -/
def skipComment (text : List Char) : Except Fault (List Char) :=
  match text with
  | '#' :: rest =>
    if (rest.takeWhile (· ≠ '\n')).any isControl then .error .malformed
    else .ok (rest.dropWhile (· ≠ '\n'))
  | _ => .ok text

/-- The rest after blanks, line ends and comments. -/
def skipFiller : Nat → List Char → Except Fault (List Char)
  | 0, text => .ok text
  | fuel + 1, text => do
    let start := skipLines text
    let after ← skipComment start
    if after.length = start.length then return after else skipFiller fuel after

/-- The character of an escape by a number of hexadecimal digits. -/
def readNumbered (width : Nat) (text : List Char) : Except Fault (Char × List Char) :=
  let digits := text.take width
  let code := ofDigits 16 digits
  if digits.length = width ∧ digits.all (isDigitOf 16) ∧ code.isValidChar then
    .ok (Char.ofNat code, text.drop width)
  else .error .malformed

/-- The characters of an escape, read after the backslash. In a string of
several lines a backslash at the end of a line joins it to the next text. -/
def readEscape (lines : Bool) (text : List Char) : Except Fault (List Char × List Char) :=
  match text with
  | [] => .error .malformed
  | c :: rest =>
    if lines && (isInlineBlank c || c = '\n') then
      match skipInline text with
      | '\n' :: more => .ok ([], skipLines more)
      | _ => .error .malformed
    else if c = '"' ∨ c = '\\' then .ok ([c], rest)
    else if c = 'b' then .ok (['\x08'], rest)
    else if c = 't' then .ok (['\t'], rest)
    else if c = 'n' then .ok (['\n'], rest)
    else if c = 'f' then .ok (['\x0c'], rest)
    else if c = 'r' then .ok (['\r'], rest)
    else if c = 'u' then (readNumbered 4 rest).map fun (d, after) => ([d], after)
    else if c = 'U' then (readNumbered 8 rest).map fun (d, after) => ([d], after)
    else .error .malformed

/-- The rest of a string with escapes, up to its closing quotes. -/
def readBasic (lines : Bool) : Nat → List Char → Except Fault (List Char × List Char)
  | 0, _ => .error .malformed
  | _ + 1, [] => .error .malformed
  | fuel + 1, c :: rest =>
    if c = '"' then
      if lines then
        match Text.afterWord? ['"', '"'] rest with
        | some after => .ok ([], after)
        | none => do
          let (text, after) ← readBasic lines fuel rest
          return ('"' :: text, after)
      else .ok ([], rest)
    else if c = '\\' then do
      let (escaped, after) ← readEscape lines rest
      let (text, after) ← readBasic lines fuel after
      return (escaped ++ text, after)
    else if (if lines then isControlInLines c else isControl c) then .error .malformed
    else do
      let (text, after) ← readBasic lines fuel rest
      return (c :: text, after)

/-- A string of one line with escapes, read after its opening quote. -/
def readBasicLine (text : List Char) : Except Fault (String × List Char) := do
  let (chars, after) ← readBasic false (text.length + 1) text
  return (String.ofList chars, after)

/-- A string of one line without escapes, read after its opening quote. -/
def readLiteralLine (text : List Char) : Except Fault (String × List Char) :=
  match Text.aroundWord? ['\''] text with
  | none => .error .malformed
  | some (chars, after) =>
    if chars.any isControl then .error .malformed else .ok (String.ofList chars, after)

/-- Up to two more quotes that belong to a string of several lines, which may
end in four or five quotes. -/
def takeExtraQuotes (quote : Char) (text : List Char) : List Char × List Char :=
  match text with
  | c :: d :: rest =>
    if c = quote then
      if d = quote then ([c, d], rest) else ([c], d :: rest)
    else ([], text)
  | [c] => if c = quote then ([c], []) else ([], text)
  | [] => ([], text)

/-- A string of several lines, read after its opening quotes. A line end right
after them is dropped. -/
def readLines (literal : Bool) (text : List Char) : Except Fault (String × List Char) := do
  let start := match text with
    | '\n' :: rest => rest
    | _ => text
  let (chars, after) ←
    if literal then
      match Text.aroundWord? ['\'', '\'', '\''] start with
      | none => .error .malformed
      | some (chars, after) =>
        if chars.any isControlInLines then .error .malformed else .ok (chars, after)
    else readBasic true (start.length + 1) start
  let (extra, after) := takeExtraQuotes (if literal then '\'' else '"') after
  return (String.ofList (chars ++ extra), after)

/-- Whether a character may stand in a key without quotes. -/
def isBareKeyChar (c : Char) : Bool := c.isAlphanum || c = '-' || c = '_'

def startsKey (c : Char) : Bool := isBareKeyChar c || c = '"' || c = '\''

def readKeyPart (text : List Char) : Except Fault (String × List Char) :=
  match text with
  | [] => .error .malformed
  | c :: rest =>
    if isBareKeyChar c then
      .ok (String.ofList (text.takeWhile isBareKeyChar), text.dropWhile isBareKeyChar)
    else if c = '\'' then readLiteralLine rest
    else if c = '"' then readBasicLine rest
    else .error .malformed

/-- The names of a dotted key, with blanks allowed around the dots. -/
def readKeyParts : Nat → List Char → Except Fault (List String × List Char)
  | 0, _ => .error .malformed
  | fuel + 1, text => do
    let (part, after) ← readKeyPart text
    match skipInline after with
    | '.' :: more =>
      let (parts, after) ← readKeyParts fuel (skipInline more)
      return (part :: parts, after)
    | after => return ([part], after)

/-- A dotted key. Every name takes up a character, so the length bounds them. -/
def readKey (text : List Char) : Except Fault (List String × List Char) :=
  readKeyParts (text.length + 1) text

end EventPolicy.Toml
