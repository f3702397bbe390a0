import EventPolicy.Toml.Draft
import EventPolicy.Toml.Scalar

/-!
The reader of TOML documents. A document is a sequence of statements, one a
line: a key with its value, the header of a table, or the header of the next
table of a list.
-/

namespace EventPolicy.Toml

/-- Adds a key and its value to an inline table. Tables that dotted keys made
may be extended, values written in one piece may not. -/
def addInline (entries : Table) (sealed : List KeyPath) (key : KeyPath) (value : Value) :
    Option (Table × List KeyPath) := do
  let name ← key.getLast?
  if Draft.isSealed sealed key then none
  else
    let entries ← Draft.changeAt false (Draft.addNew name value) key.dropLast entries
    let sealed := match value with
      | .table _ | .list _ => key :: sealed
      | _ => sealed
    return (entries, sealed)

/-- A result, or the fault of a document that is not well formed. -/
def require {α : Type} (result : Option α) : Except Fault α :=
  match result with
  | some value => .ok value
  | none => .error .malformed

mutual

/-- The value at the start of the text. -/
def readValue : Nat → List Char → Except Fault (Value × List Char)
  | 0, _ => .error .malformed
  | _ + 1, [] => .error .malformed
  | fuel + 1, c :: rest => do
    if c = '"' then
      let (text, after) ← match Text.afterWord? ['"', '"'] rest with
        | some start => readLines false start
        | none => readBasicLine rest
      return (.string text, after)
    else if c = '\'' then
      let (text, after) ← match Text.afterWord? ['\'', '\''] rest with
        | some start => readLines true start
        | none => readLiteralLine rest
      return (.string text, after)
    else if c = '[' then
      match ← skipFiller (rest.length + 1) rest with
      | ']' :: after => return (.list [], after)
      | start =>
        let (items, after) ← readItems fuel start
        return (.list items, after)
    else if c = '\x7b' then
      match skipInline rest with
      | '\x7d' :: after => return (.table [], after)
      | start =>
        let (entries, after) ← readInline fuel [] [] start
        return (.table entries, after)
    else readScalar (c :: rest)

/-- The items of a list up to its closing bracket, before which a comma may stand. -/
def readItems : Nat → List Char → Except Fault (List Value × List Char)
  | 0, _ => .error .malformed
  | fuel + 1, text => do
    let (item, after) ← readValue fuel text
    match ← skipFiller (after.length + 1) after with
    | ']' :: after => return ([item], after)
    | ',' :: more =>
      match ← skipFiller (more.length + 1) more with
      | ']' :: after => return ([item], after)
      | start =>
        let (items, after) ← readItems fuel start
        return (item :: items, after)
    | _ => .error .malformed

/-- The entries of an inline table up to its closing bracket. -/
def readInline : Nat → Table → List KeyPath → List Char → Except Fault (Table × List Char)
  | 0, _, _, _ => .error .malformed
  | fuel + 1, entries, sealed, text => do
    let (key, after) ← readKey text
    let '=' :: start := after | .error .malformed
    let (value, after) ← readValue fuel (skipInline start)
    let (entries, sealed) ← require (addInline entries sealed key value)
    match skipInline after with
    | '\x7d' :: after => return (entries, after)
    | ',' :: more => readInline fuel entries sealed (skipInline more)
    | _ => .error .malformed

end

/-- The statement that adds a value under a key. -/
def readEntry (draft : Draft) (header : KeyPath) (text : List Char) :
    Except Fault (Draft × List Char) := do
  let (key, after) ← readKey text
  let '=' :: start := after | .error .malformed
  let start := skipInline start
  let (value, after) ← readValue (2 * start.length + 2) start
  let draft ← require (draft.addEntry header key value)
  return (draft, after)

/-- The header of a table, read after its opening bracket. -/
def readTableHeader (draft : Draft) (text : List Char) :
    Except Fault ((Draft × KeyPath) × List Char) := do
  let (path, after) ← readKey (skipInline text)
  let draft ← require (draft.openTable path)
  let ']' :: after := after | .error .malformed
  return ((draft, path), after)

/-- The header of a table of a list, read after its opening brackets. -/
def readListHeader (draft : Draft) (text : List Char) :
    Except Fault ((Draft × KeyPath) × List Char) := do
  let (path, after) ← readKey (skipInline text)
  let draft ← require (draft.openListTable path)
  let ']' :: ']' :: after := after | .error .malformed
  return ((draft, path), after)

/-- One statement or none, up to the comment or the line end behind it. -/
def readStatement (draft : Draft) (header : KeyPath) (text : List Char) :
    Except Fault ((Draft × KeyPath) × List Char) :=
  match text with
  | [] => .ok ((draft, header), [])
  | '[' :: '[' :: rest => readListHeader draft.declarePending rest
  | '[' :: rest => readTableHeader draft.declarePending rest
  | c :: rest =>
    if startsKey c then do
      let (draft, after) ← readEntry draft header (c :: rest)
      return ((draft, header), after)
    else if c = '#' ∨ c = '\n' then .ok ((draft, header), c :: rest)
    else .error .malformed

/-- The statements of a document, one a line. -/
def readStatements : Nat → Draft → KeyPath → List Char → Except Fault Table
  | 0, _, _, _ => .error .malformed
  | fuel + 1, draft, header, text => do
    let ((draft, header), after) ← readStatement draft header (skipInline text)
    match ← skipComment (skipInline after) with
    | [] => return draft.root
    | '\n' :: rest => readStatements fuel draft header rest
    | _ => .error .malformed

/-- The table that a document writes. Every line takes up a character, so the
length bounds their number. -/
def read (document : String) : Except Fault Table :=
  let text := unifyLineEnds document.toList
  readStatements (text.length + 1) .empty [] text

end EventPolicy.Toml
