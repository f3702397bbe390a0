import EventPolicy.Text.Blank
import EventPolicy.Text.LetterCase
import EventPolicy.Text.Word
import EventPolicy.Text.WordChar
import EventPolicy.Value

/-!
Redaction of log records. A value under a sensitive name is replaced as a
whole. In every other text, the user and the password in an address are
masked first, and the values of password options after that. Tables are
redacted at every depth; of a list or a tuple, the texts that are its items are,
and a tuple is shown as a list.
-/

namespace EventPolicy.Redaction

/-- The names whose values are never shown, in small letters. -/
def sensitiveNames : List String :=
  ["password", "passwd", "secret", "token", "api_key", "apikey", "authorization", "credential",
   "credentials", "private_key", "access_token", "refresh_token"]

/-- Whether a name is sensitive, in any case of letters. -/
def isSensitive (name : String) : Bool := sensitiveNames.contains (Text.lower name)

/-- What stands for something that is not shown. -/
def mask : List Char := "[REDACTED]".toList

/-- Whether a character may start the name of a scheme. -/
def startsScheme (c : Char) : Bool := c.isAlpha

/-- Whether a character may stand in the name of a scheme. -/
def isSchemeChar (c : Char) : Bool := Text.isWordChar c || c = '+' || c = '.' || c = '-'

/-- Whether a character may stand in a password before the host of an address. -/
def isPasswordChar (c : Char) : Bool := c != '/' && c != '@' && !Text.isBlank c

/-- Whether a character may stand in a user name before a password. -/
def isUserChar (c : Char) : Bool := isPasswordChar c && c != ':'

/-- Whether a character may stand in the value of an option. -/
def isOptionChar (c : Char) : Bool := c != '&' && !Text.isBlank c

/-- What follows a non-empty run of characters and then a fixed character. -/
def afterRun? (inRun : Char → Bool) (stop : Char) (text : List Char) : Option (List Char) :=
  if (text.takeWhile inRun).isEmpty then none
  else
    match text.dropWhile inRun with
    | c :: rest => if c = stop then some rest else none
    | [] => none

/-- What follows the user, the password and the sign before a host. -/
def afterUserinfo? (text : List Char) : Option (List Char) :=
  (afterRun? isUserChar ':' text).bind (afterRun? isPasswordChar '@')

/-- An address with a user and a password at the start of the text: the scheme
with its slashes, and what follows the sign before the host. -/
def userinfoAt? (text : List Char) : Option (List Char × List Char) :=
  match text with
  | [] => none
  | c :: rest =>
    if startsScheme c then
      let scheme := c :: rest.takeWhile isSchemeChar
      match Text.afterWord? [':', '/', '/'] (rest.dropWhile isSchemeChar) with
      | none => none
      | some start => (afterUserinfo? start).map fun after => (scheme ++ [':', '/', '/'], after)
    else none

/-- The text with the user and the password of each address masked. The steps
are bounded by the length of the text. -/
def maskUserinfoFrom : Nat → List Char → List Char
  | 0, text => text
  | _ + 1, [] => []
  | steps + 1, c :: rest =>
    match userinfoAt? (c :: rest) with
    | some (scheme, after) => scheme ++ mask ++ '@' :: maskUserinfoFrom steps after
    | none => c :: maskUserinfoFrom steps rest

/-- The text with the user and the password of each address masked. -/
def maskUserinfo (text : List Char) : List Char := maskUserinfoFrom text.length text

/-- Whether a character is a letter of an option's name in any case. The long
s is an s. -/
def isLetter (letter c : Char) : Bool := c.toLower = letter || (letter = 's' && c = 'ſ')

/-- The text after a word, in any case of letters, with the word as it is
written there. -/
def afterName? : List Char → List Char → Option (List Char × List Char)
  | [], text => some ([], text)
  | _ :: _, [] => none
  | letter :: name, c :: text =>
    if isLetter letter c then (afterName? name text).map fun (seen, rest) => (c :: seen, rest)
    else none

def optionNames : List (List Char) :=
  ["password".toList, "passphrase".toList, "secret".toList]

/-- A password option of one of the names at the start of the text: its name
as written, and what follows its value. -/
def optionNamed? (text : List Char) : List (List Char) → Option (List Char × List Char)
  | [] => none
  | name :: names =>
    match afterName? name text with
    | some (seen, '=' :: value) =>
      if (value.takeWhile isOptionChar).isEmpty then optionNamed? text names
      else some (seen, value.dropWhile isOptionChar)
    | _ => optionNamed? text names

/-- A password option at the start of the text. -/
def optionAt? (text : List Char) : Option (List Char × List Char) := optionNamed? text optionNames

/-- The text with the values of password options masked. The steps are bounded
by the length of the text. -/
def maskOptionsFrom : Nat → List Char → List Char
  | 0, text => text
  | _ + 1, [] => []
  | steps + 1, c :: rest =>
    match optionAt? (c :: rest) with
    | some (name, after) => name ++ '=' :: mask ++ maskOptionsFrom steps after
    | none => c :: maskOptionsFrom steps rest

/-- The text with the values of password options masked. -/
def maskOptions (text : List Char) : List Char := maskOptionsFrom text.length text

/-- A text without what may not be shown. -/
def redactText (text : String) : String :=
  String.ofList (maskOptions (maskUserinfo text.toList))

/-- An item of a list or a tuple: a text is redacted, anything else stays as it is. -/
def redactItem : Value → Value
  | .string text => .string (redactText text)
  | value => value

mutual

/-- A value under a name that is not sensitive. -/
def redactValue : Value → Value
  | .string text => .string (redactText text)
  | .list items | .tuple items => .list (items.map redactItem)
  | .table entries => .table (redactEntries entries)
  | value => value

/-- Entries of a table: the value of a sensitive name is replaced. -/
def redactEntries : List (String × Value) → List (String × Value)
  | [] => []
  | (name, value) :: rest =>
    (name, if isSensitive name then .string (String.ofList mask) else redactValue value) ::
      redactEntries rest

end

/-- The fields of a record without what may not be shown. -/
def redact (fields : Table) : Table := redactEntries fields

theorem keys_redact (fields : Table) : Entries.keys (redact fields) = Entries.keys fields := by
  unfold redact Entries.keys
  induction fields with
  | nil => simp [redactEntries]
  | cons entry rest ih => simp [redactEntries, ih]

end EventPolicy.Redaction
