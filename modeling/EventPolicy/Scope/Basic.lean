import EventPolicy.EventKind
import EventPolicy.Scope.ValueSet
import EventPolicy.Vocabulary

/-!
Scopes: one constraint of a policy on one element of an event. A scope either
lists accepted values or holds an expression of a named language, never both.
`Scope.fault?` says what is wrong with a scope, and the builders below return
a scope only if nothing is.
-/

namespace EventPolicy

/-- A constraint on one element. Methods by value use `values`; the method by
expression uses `language` and `expression`. -/
structure Scope where
  element : Element
  method : Method
  values : ValueSet
  language : Option String
  expression : Option String
  deriving DecidableEq

/-- What can be wrong with the parts of a scope. -/
inductive ScopeFault where
  | incompleteExpression
  | expressionWithValues
  | valuesWithExpression
  | noValues
  | notOneValue
  deriving DecidableEq, Repr

def ScopeFault.message : ScopeFault → String
  | .incompleteExpression => "expression scopes need a language and an expression"
  | .expressionWithValues => "expression scopes cannot carry enum values"
  | .valuesWithExpression => "enum scopes cannot carry an expression"
  | .noValues => "enum scopes need at least one value"
  | .notOneValue => "ENUM_VALUE_ONE scopes take exactly one value"

namespace Scope

/-- What is wrong with a scope, if anything is. -/
def fault? (scope : Scope) : Option ScopeFault :=
  if scope.method = .expression then
    if scope.language.getD "" = "" ∨ scope.expression = none then some .incompleteExpression
    else if scope.values.size ≠ 0 then some .expressionWithValues
    else none
  else if scope.language ≠ none ∨ scope.expression ≠ none then some .valuesWithExpression
  else if scope.values.size = 0 then some .noValues
  else if scope.method = .oneValue ∧ scope.values.size ≠ 1 then some .notOneValue
  else none

/-- The scope itself, if nothing is wrong with it. -/
def checked (scope : Scope) : Except ScopeFault Scope :=
  match scope.fault? with
  | some fault => .error fault
  | none => .ok scope

def isExpression (scope : Scope) : Bool := scope.method = .expression

/-- What distinguishes a scope from others. -/
abbrev Signature := Element × Method × ValueSet × Option String × Option String

/-- The signature of a scope. Two scopes with the same one are redundant
beside each other. -/
def signature (scope : Scope) : Signature :=
  (scope.element, scope.method, scope.values, scope.language, scope.expression)

/-- A scope that accepts the listed values. Without a method, one value makes
the method for one and any other number the method for several. -/
def ofValues (element : Element) (values : List String) (method : Option Method) :
    Except ScopeFault Scope :=
  let set := ValueSet.ofList values
  let inferred := if set.size = 1 then Method.oneValue else .severalValues
  checked ⟨element, method.getD inferred, set, none, none⟩

/-- A scope that accepts one kind of event. -/
def ofEvent (kind : EventKind) : Except ScopeFault Scope :=
  checked ⟨.event, .oneValue, ValueSet.ofList [kind.name], none, none⟩

/-- A scope that matches by an expression of a language. -/
def ofExpression (element : Element) (language expression : String) : Except ScopeFault Scope :=
  checked ⟨element, .expression, ValueSet.empty, some language, some expression⟩

/-- The name of the language of patterns with wildcards. -/
def patternLanguage : String := "wildcardAwareString"

/-- A scope that matches by a pattern with wildcards. -/
def ofPattern (element : Element) (pattern : String) : Except ScopeFault Scope :=
  ofExpression element patternLanguage pattern

/-- The scopes whose signature is neither among those seen nor that of an
earlier scope. -/
def pruneFrom (seen : List Signature) : List Scope → List Scope
  | [] => []
  | scope :: rest =>
    if scope.signature ∈ seen then pruneFrom seen rest
    else scope :: pruneFrom (scope.signature :: seen) rest

/-- The scopes without those whose signature occurred before, in their order. -/
def prune (scopes : List Scope) : List Scope := pruneFrom [] scopes

/-- A scope comes through the check exactly when nothing is wrong with it. -/
theorem checked_eq_ok_iff {scope result : Scope} :
    scope.checked = .ok result ↔ scope.fault? = none ∧ result = scope := by
  unfold checked
  cases scope.fault? with
  | none => simp [eq_comm]
  | some fault => simp

/-- Scopes have the same signature exactly when they are equal. -/
theorem signature_eq_iff {a b : Scope} : a.signature = b.signature ↔ a = b := by
  cases a
  cases b
  simp [signature]

theorem mem_of_mem_pruneFrom {seen : List Signature} {scopes : List Scope} {scope : Scope}
    (h : scope ∈ pruneFrom seen scopes) :
    scope ∈ scopes ∧ scope.signature ∉ seen := by
  induction scopes generalizing seen with
  | nil => simp [pruneFrom] at h
  | cons first rest ih =>
    simp only [pruneFrom] at h
    split at h
    · obtain ⟨member, fresh⟩ := ih h
      exact ⟨List.mem_cons_of_mem _ member, fresh⟩
    · next fresh =>
      rcases List.mem_cons.1 h with rfl | h
      · exact ⟨List.mem_cons_self, fresh⟩
      · obtain ⟨member, later⟩ := ih h
        exact ⟨List.mem_cons_of_mem _ member, fun old => later (List.mem_cons_of_mem _ old)⟩

end Scope

end EventPolicy
