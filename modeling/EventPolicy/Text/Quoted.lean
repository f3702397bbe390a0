import EventPolicy.Number.Digits
import EventPolicy.Text.Printable

/-!
Quoted text, as error messages and console lines show it. The quote is `'`,
or `"` where the text holds the one and not the other. A backslash and the
quote itself are written after a backslash; a character that is not printable
is written by its number.
-/

namespace EventPolicy.Text

def quoteFor (text : List Char) : Char :=
  if '\'' ∈ text ∧ '"' ∉ text then '"' else '\''

/-- The number of a character in the shortest of the three widths that holds it. -/
def numberedChar (c : Char) : String :=
  if c.toNat < 0x100 then "\\x" ++ Number.toHexWidth 2 c.toNat
  else if c.toNat < 0x10000 then "\\u" ++ Number.toHexWidth 4 c.toNat
  else "\\U" ++ Number.toHexWidth 8 c.toNat

def quotedChar (quote c : Char) : String :=
  if c = quote ∨ c = '\\' then String.ofList ['\\', c]
  else if c = '\n' then "\\n"
  else if c = '\r' then "\\r"
  else if c = '\t' then "\\t"
  else if isPrintable c then String.ofList [c]
  else numberedChar c

def quoted (text : String) : String :=
  let quote := quoteFor text.toList
  String.ofList ([quote] ++ text.toList.flatMap (fun c => (quotedChar quote c).toList) ++ [quote])

end EventPolicy.Text
