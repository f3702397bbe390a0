/-!
The closed vocabularies of policies: what a policy does, what a scope looks
at, how it matches, and the first word of a policy key. Each word has one
spelling, and a spelling is read back case-sensitively.
-/

namespace EventPolicy

/-- What happens to the events that a policy matches. -/
inductive Action where
  | includes
  | excludes
  deriving DecidableEq, Repr

/-- What a scope looks at: the owning context, the kind of the event, the
hosting bundle, the message in flight or the address of an endpoint. -/
inductive Element where
  | context
  | event
  | bundle
  | exchange
  | endpoint
  deriving DecidableEq, Repr

/-- How a scope matches: by one value, by one of several values, or by an
expression of a named language. -/
inductive Method where
  | oneValue
  | severalValues
  | expression
  deriving DecidableEq, Repr

/-- The first word of a policy key, which selects the dialect of the rest. -/
inductive Qualifier where
  | camelContext
  | event
  | exchange
  | endpoint
  deriving DecidableEq, Repr

namespace Action

def spelling : Action → String
  | .includes => "include"
  | .excludes => "exclude"

def all : List Action := [.includes, .excludes]

def ofSpelling? (text : String) : Option Action := all.find? (·.spelling = text)

end Action

namespace Element

def spelling : Element → String
  | .context => "context"
  | .event => "event"
  | .bundle => "bundle"
  | .exchange => "exchange"
  | .endpoint => "endpoint"

def all : List Element := [.context, .event, .bundle, .exchange, .endpoint]

def ofSpelling? (text : String) : Option Element := all.find? (·.spelling = text)

end Element

namespace Method

def spelling : Method → String
  | .oneValue => "enum_value_one"
  | .severalValues => "enum_value_multiple"
  | .expression => "expression"

def all : List Method := [.oneValue, .severalValues, .expression]

def ofSpelling? (text : String) : Option Method := all.find? (·.spelling = text)

end Method

namespace Qualifier

def spelling : Qualifier → String
  | .camelContext => "camelContext"
  | .event => "event"
  | .exchange => "exchange"
  | .endpoint => "endpoint"

def name : Qualifier → String
  | .camelContext => "CAMEL_CONTEXT"
  | .event => "EVENT"
  | .exchange => "EXCHANGE"
  | .endpoint => "ENDPOINT"

def all : List Qualifier := [.camelContext, .event, .exchange, .endpoint]

def ofSpelling? (text : String) : Option Qualifier := all.find? (·.spelling = text)

end Qualifier

/-- A spelling is read back as the action that has it. -/
theorem Action.ofSpelling?_eq_some_iff {text : String} {action : Action} :
    Action.ofSpelling? text = some action ↔ text = action.spelling := by
  constructor
  · intro h
    simpa [eq_comm] using List.find?_some h
  · rintro rfl
    cases action <;> decide

/-- A spelling is read back as the element that has it. -/
theorem Element.ofSpelling?_eq_some_iff {text : String} {element : Element} :
    Element.ofSpelling? text = some element ↔ text = element.spelling := by
  constructor
  · intro h
    simpa [eq_comm] using List.find?_some h
  · rintro rfl
    cases element <;> decide

/-- A spelling is read back as the method that has it. -/
theorem Method.ofSpelling?_eq_some_iff {text : String} {method : Method} :
    Method.ofSpelling? text = some method ↔ text = method.spelling := by
  constructor
  · intro h
    simpa [eq_comm] using List.find?_some h
  · rintro rfl
    cases method <;> decide

/-- A spelling is read back as the qualifier that has it. -/
theorem Qualifier.ofSpelling?_eq_some_iff {text : String} {qualifier : Qualifier} :
    Qualifier.ofSpelling? text = some qualifier ↔ text = qualifier.spelling := by
  constructor
  · intro h
    simpa [eq_comm] using List.find?_some h
  · rintro rfl
    cases qualifier <;> decide

end EventPolicy
