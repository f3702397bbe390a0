import EventPolicy.Policy
import EventPolicy.Validation

/-!
Scopes and policies read from tables of arguments.
-/

namespace EventPolicy

namespace Scope

/-- The fields of a scope in the order of their declaration. -/
def fieldNames : List String :=
  ["element", "method", "enum_values", "expression_language", "expression"]

/-- The accepted values of a scope, given as a list or a tuple of texts. -/
def valuesField (value : Value) : Checked ValueSet :=
  match value with
  | .list items | .tuple items => (Checked.eachFrom Field.text 0 items).map ValueSet.ofList
  | _ => Checked.issue .notSet

/-- A scope with a fault is a broken rule of the whole. -/
def accepted (built : Except ScopeFault Scope) : Checked Scope :=
  built.mapError fun fault => [⟨[], .rule fault.message⟩]

def ofTable (fields : Table) : Checked Scope := do
  let element := Field.required fields "element" (Field.choice Element.all Element.spelling)
  let method := Field.required fields "method" (Field.choice Method.all Method.spelling)
  let values := Field.withDefault fields "enum_values" ValueSet.empty valuesField
  let language := Field.withDefault fields "expression_language" none (Field.optional Field.text)
  let expression := Field.withDefault fields "expression" none (Field.optional Field.text)
  let parts := Checked.both element (Checked.both method
    (Checked.both values (Checked.both language expression)))
  let (element, method, values, language, expression) ←
    parts.butFor (Field.unknown fields fieldNames)
  accepted (checked ⟨element, method, values, language, expression⟩)

end Scope

namespace Policy

/-- The fields of a policy in the order of their declaration. -/
def fieldNames : List String := ["action", "scopes", "source_key"]

/-- The issue of a fault of a policy. -/
def issueOf : PolicyFault → Issue
  | .noScopes => ⟨["scopes"], .tooShort PolicyFault.noScopes.message⟩
  | .duplicateScopes => ⟨[], .rule PolicyFault.duplicateScopes.message⟩

/-- A policy with a fault is refused with its issue. -/
def accepted (built : Except PolicyFault Policy) : Checked Policy :=
  built.mapError fun fault => [issueOf fault]

/-- The scopes of a policy, given as a list or a tuple of tables. At least one of
them has to be accepted, also where others already have issues of their own. -/
def scopesField (value : Value) : Checked (List Scope) :=
  let scope := Field.record "Scope" Scope.ofTable
  match value with
  | .list items | .tuple items =>
    (Checked.eachFrom scope 0 items).butFor
      (if items.any fun item => (scope item).isOk then []
        else [⟨[], .tooShort PolicyFault.noScopes.message⟩])
  | _ => Checked.issue .notSequence

def ofTable (fields : Table) : Checked Policy := do
  let action := Field.required fields "action" (Field.choice Action.all Action.spelling)
  let scopes := Field.required fields "scopes" scopesField
  let sourceKey := Field.withDefault fields "source_key" none (Field.optional Field.text)
  let parts := Checked.both action (Checked.both scopes sourceKey)
  let (action, scopes, sourceKey) ← parts.butFor (Field.unknown fields fieldNames)
  accepted (checked ⟨action, scopes, sourceKey⟩)

end Policy

end EventPolicy
