import EventPolicy.Number.Digits
import EventPolicy.Value

/-!
Values of the wrong kind. Where nothing has validated a value, an operation can
meet one that it cannot use; what is wrong is told by the kind of the value, or
by the place of the item where items are read as entries.
-/

namespace EventPolicy

/-- Why a value cannot be used where it stands: its kind has no such member or
no length, it is put beside a text without being one, an item of it is not a
sequence or not a pair, or no argument of an operation has its name. -/
inductive ValueFault where
  | noMember (kind member : String)
  | noLength (kind : String)
  | notJoined (kind : String)
  | notSequence (place : Nat)
  | notPair (place size : Nat)
  | unknownArgument (operation name : String)
  deriving DecidableEq, Repr

def ValueFault.message : ValueFault → String
  | .noMember kind member =>
    "'" ++ kind ++ "' object has no attribute '" ++ member ++ "'"
  | .noLength kind => "object of type '" ++ kind ++ "' has no len()"
  | .notJoined kind => "can only concatenate str (not \"" ++ kind ++ "\") to str"
  | .notSequence place =>
    "cannot convert dictionary update sequence element #" ++ Number.toDecimal place ++
      " to a sequence"
  | .notPair place size =>
    "dictionary update sequence element #" ++ Number.toDecimal place ++ " has length " ++
      Number.toDecimal size ++ "; 2 is required"
  | .unknownArgument operation name =>
    operation ++ "() got an unexpected keyword argument '" ++ name ++ "'"

namespace Value

/-- The name of the kind of a value, with the family of a date or a time. -/
def fullKindName : Value → String
  | .moment _ => "datetime.datetime"
  | .date _ => "datetime.date"
  | .time _ => "datetime.time"
  | value => value.kindName

/-- What a value is made of, if its kind is made of anything: the characters of
a text, the items of a list or a tuple, the names of a table. -/
def parts? : Value → Option (List Value)
  | .string text => some (text.toList.map fun c => .string (String.singleton c))
  | .list items | .tuple items => some items
  | .table entries => some (entries.map fun entry => .string entry.1)
  | _ => none

end Value

end EventPolicy
