import EventPolicy.Calendar
import EventPolicy.Entries
import EventPolicy.Number.Binary64

/-!
Values of configuration files, arguments and log fields: scalars, lists, tuples
and tables. A tuple has items like a list and is told apart from it; a table is
a list of entries and keeps their order. `Value.byNesting` is the induction that
proofs about nested values use.
-/

namespace EventPolicy

/-- A value that can be nested. -/
inductive Value where
  | null
  | bool (flag : Bool)
  | int (number : Int)
  | float (number : Number.Binary64)
  | string (text : String)
  | moment (moment : Moment)
  | date (date : Date)
  | time (time : TimeOfDay)
  | list (items : List Value)
  | tuple (items : List Value)
  | table (entries : List (String × Value))
  deriving Repr

/-- A table: names with values, in order. -/
abbrev Table := Entries Value

namespace Value

def isTable : Value → Bool
  | .table _ => true
  | _ => false

/-- The text of a value that is one. -/
def asText? : Value → Option String
  | .string text => some text
  | _ => none

/-- Whether a value says something: null, false, a zero and what is empty do not. -/
def isTrue : Value → Bool
  | .null => false
  | .bool flag => flag
  | .int number => number ≠ 0
  | .float number => !number.isZero
  | .string text => text ≠ ""
  | .list items | .tuple items => !items.isEmpty
  | .table entries => !entries.isEmpty
  | _ => true

/-- The items of a list, if all of them are texts. -/
def textsOf : List Value → Option (List String)
  | [] => some []
  | .string text :: rest => (textsOf rest).map (text :: ·)
  | _ :: _ => none

/-- The name of the kind of a value, as messages tell it. -/
def kindName : Value → String
  | .null => "NoneType"
  | .bool _ => "bool"
  | .int _ => "int"
  | .float _ => "float"
  | .string _ => "str"
  | .moment _ => "datetime"
  | .date _ => "date"
  | .time _ => "time"
  | .list _ => "list"
  | .tuple _ => "tuple"
  | .table _ => "dict"

mutual

/-- Whether every table in the value has distinct names. -/
def WellFormed : Value → Prop
  | .list items => AllWellFormed items
  | .tuple items => AllWellFormed items
  | .table entries => (Entries.keys entries).Nodup ∧ EntriesWellFormed entries
  | _ => True

/-- Whether every table in the items has distinct names. -/
def AllWellFormed : List Value → Prop
  | [] => True
  | item :: rest => item.WellFormed ∧ AllWellFormed rest

/-- Whether every table below the entries has distinct names. -/
def EntriesWellFormed : List (String × Value) → Prop
  | [] => True
  | (_, value) :: rest => value.WellFormed ∧ EntriesWellFormed rest

end

/-- Induction over nested values: a statement holds of every value if it holds
of a list, a tuple or a table whenever it holds of all that is in it, and of
every other value. -/
theorem byNesting {motive : Value → Prop}
    (scalar : ∀ value, (∀ items, value ≠ .list items) → (∀ items, value ≠ .tuple items) →
      (∀ entries, value ≠ .table entries) → motive value)
    (list : ∀ items, (∀ item ∈ items, motive item) → motive (.list items))
    (tuple : ∀ items, (∀ item ∈ items, motive item) → motive (.tuple items))
    (table : ∀ entries, (∀ entry ∈ entries, motive entry.2) → motive (.table entries))
    (value : Value) : motive value := by
  refine Value.rec (motive_1 := motive) (motive_2 := fun items => ∀ item ∈ items, motive item)
    (motive_3 := fun entries => ∀ entry ∈ entries, motive entry.2)
    (motive_4 := fun entry => motive entry.2)
    ?_ ?_ ?_ ?_ ?_ ?_ ?_ ?_ list tuple table ?_ ?_ ?_ ?_ ?_ value
  case refine_1 => exact scalar .null (by simp) (by simp) (by simp)
  case refine_2 => exact fun flag => scalar (.bool flag) (by simp) (by simp) (by simp)
  case refine_3 => exact fun number => scalar (.int number) (by simp) (by simp) (by simp)
  case refine_4 => exact fun number => scalar (.float number) (by simp) (by simp) (by simp)
  case refine_5 => exact fun text => scalar (.string text) (by simp) (by simp) (by simp)
  case refine_6 => exact fun moment => scalar (.moment moment) (by simp) (by simp) (by simp)
  case refine_7 => exact fun date => scalar (.date date) (by simp) (by simp) (by simp)
  case refine_8 => exact fun time => scalar (.time time) (by simp) (by simp) (by simp)
  case refine_9 => simp
  case refine_10 => exact fun _ _ head tail => List.forall_mem_cons.2 ⟨head, tail⟩
  case refine_11 => simp
  case refine_12 => exact fun _ _ head tail => List.forall_mem_cons.2 ⟨head, tail⟩
  case refine_13 => exact fun _ _ second => second

/-- The items of a list are texts exactly when they are the given ones. -/
theorem textsOf_eq_some_iff {items : List Value} {texts : List String} :
    textsOf items = some texts ↔ items = texts.map .string := by
  induction items generalizing texts with
  | nil => cases texts <;> simp [textsOf]
  | cons item rest ih =>
    cases texts with
    | nil => cases item <;> simp [textsOf]
    | cons text texts =>
      cases item <;> simp [textsOf, ← ih]
      exact and_comm

end Value

end EventPolicy
