import EventPolicy.Policy
import EventPolicy.Text.Blank
import EventPolicy.Text.LetterCase
import EventPolicy.Text.Quoted
import EventPolicy.Text.Segment
import EventPolicy.Value.Fault

/-!
The dialects of policy keys. The qualifier of a key selects a dialect; the
dialect reads the remainder of the key and the value:

* `camelContext.<action>` with context patterns as value,
* `event.<action>.<event>.<bundle>` with a context pattern as value,
* `exchange.<filter>.<event>.<language>[/<bundle>[/<context>]]` with an
  expression as value,
* `endpoint.<action>[/<bundle>[/<context>]]` with an endpoint pattern as value.

The last dotted segment of a dialect holds all further dots, so the symbolic
names of bundles can be patterns. A value is a text, unless it comes from where
nobody validates it; a value that is none makes no policy.
-/

namespace EventPolicy

/-- Why a key or its value does not fit its dialect. -/
inductive Malformation where
  | segments (count : Nat) (qualifier : Qualifier)
  | contextForm
  | endpointForm
  | tooManyParts (limit : Nat)
  | emptyPart
  | emptyValue
  | noPatterns
  deriving DecidableEq, Repr

def Malformation.message : Malformation → String
  | .segments count qualifier =>
    "expected " ++ Number.toDecimal count ++ " non-empty segment(s) after '" ++
      qualifier.spelling ++ "'"
  | .contextForm => "expected camelContext.<include|exclude>"
  | .endpointForm => "expected endpoint.<include|exclude>[/bundle[/context]]"
  | .tooManyParts limit => "expected at most " ++ Number.toDecimal limit ++ " '/'-separated parts"
  | .emptyPart => "empty '/'-separated part"
  | .emptyValue => "value must not be empty"
  | .noPatterns => "no context patterns given"

/-- Why a dialect makes no policy of a key. A list of parts can lack the first one,
which is not taken for a malformed key. The last two are for a value that is no
text, where an expression or where context patterns have to stand. -/
inductive DialectError where
  | malformedKey (key : String) (reason : Malformation)
  | unknownEvent (word : String)
  | noFirstPart
  | invalidScope (fault : ScopeFault)
  | invalidPolicy (fault : PolicyFault)
  | expressionNotText
  | patternsNotText (fault : ValueFault)
  deriving DecidableEq, Repr

/-- What a dialect reads from a key and its value: the action and the scopes of
a policy, as they are handed to its builder. -/
structure Draft where
  action : Action
  scopes : List Scope
  deriving DecidableEq

/-- The message about a key that does not fit its dialect. -/
def malformedKeyMessage (key : String) (reason : Malformation) : String :=
  "Malformed policy key " ++ Text.quoted key ++ ": " ++ reason.message

/-- The message about a word that names no kind of event. -/
def unknownEventMessage (word : String) : String := "Unknown event kind: " ++ Text.quoted word

/-- The message about a list of parts without a first one. -/
def noFirstPartMessage : String := "not enough values to unpack (expected at least 1, got 0)"

namespace Dialect

/-- The action that a word of a key names: `exclude` in any case of letters
excludes, and everything else includes. -/
def actionOf (word : String) : Action :=
  if Text.lower word = Action.excludes.spelling then .excludes else .includes

/-- A scope from its builder, or the fault as an error of the dialect. -/
def scope (built : Except ScopeFault Scope) : Except DialectError Scope :=
  built.mapError .invalidScope

/-- A policy of scopes, or the fault as an error of the dialect. -/
def policy (action : Action) (scopes : List Scope) (key : String) :
    Except DialectError Policy :=
  (Policy.build action scopes (some key)).mapError .invalidPolicy

/-- The kind of event that a word of a key names. -/
def eventOf (word : String) : Except DialectError EventKind :=
  match EventKind.resolve? word with
  | some kind => .ok kind
  | none => .error (.unknownEvent word)

/-- The parts of a segment between slashes: at most `limit`, none empty. -/
def parts (key segment : String) (limit : Nat) : Except DialectError (List String) :=
  let found := Text.allPieces segment '/'
  if limit < found.length then .error (.malformedKey key (.tooManyParts limit))
  else if "" ∈ found then .error (.malformedKey key .emptyPart)
  else .ok found

/-- The scopes of a location: a bundle pattern, then a context pattern, as far
as they are given. -/
def locationScopes : List String → Except DialectError (List Scope)
  | [] => .ok []
  | [bundle] => do
    let first ← scope (Scope.ofPattern .bundle bundle)
    return [first]
  | bundle :: context :: _ => do
    let first ← scope (Scope.ofPattern .bundle bundle)
    let second ← scope (Scope.ofPattern .context context)
    return [first, second]

def camelContext (key remainder value : String) : Except DialectError Draft := do
  if remainder = "" then throw (.malformedKey key (.segments 1 .camelContext))
  if '.' ∈ remainder.toList then throw (.malformedKey key .contextForm)
  let patterns := Text.words value
  if patterns = [] then throw (.malformedKey key .noPatterns)
  let contexts ← scope (Scope.ofValues .context patterns (some .severalValues))
  return ⟨actionOf remainder, [contexts]⟩

def event (key remainder value : String) : Except DialectError Draft := do
  let [action, word, bundle] := Text.pieces remainder '.' 2
    | throw (.malformedKey key (.segments 3 .event))
  if action = "" ∨ word = "" ∨ bundle = "" then
    throw (.malformedKey key (.segments 3 .event))
  if value = "" then throw (.malformedKey key .emptyValue)
  let kind ← eventOf word
  let events ← scope (Scope.ofEvent kind)
  let bundles ← scope (Scope.ofPattern .bundle bundle)
  let contexts ← scope (Scope.ofPattern .context value)
  return ⟨actionOf action, [events, bundles, contexts]⟩

/-- What `exchange.<filter>.<event>.<language>[/<bundle>[/<context>]]` says.
There is no form that excludes. -/
def exchange (key remainder value : String) : Except DialectError Draft := do
  let [filter, word, specification] := Text.pieces remainder '.' 2
    | throw (.malformedKey key (.segments 3 .exchange))
  if filter = "" ∨ word = "" ∨ specification = "" then
    throw (.malformedKey key (.segments 3 .exchange))
  let language :: location ← parts key specification 3
    | throw .noFirstPart
  if value = "" then throw (.malformedKey key .emptyValue)
  let kind ← eventOf word
  let events ← scope (Scope.ofEvent kind)
  let messages ← scope (Scope.ofExpression .exchange language value)
  let places ← locationScopes location
  return ⟨.includes, events :: messages :: places⟩

def endpoint (key remainder value : String) : Except DialectError Draft := do
  if remainder = "" then throw (.malformedKey key .endpointForm)
  let action :: location ← parts key remainder 3
    | throw .noFirstPart
  if '.' ∈ action.toList then throw (.malformedKey key .endpointForm)
  if value = "" then throw (.malformedKey key .emptyValue)
  let endpoints ← scope (Scope.ofPattern .endpoint value)
  let places ← locationScopes location
  return ⟨actionOf action, endpoints :: places⟩

/-- What the dialect of a qualifier reads behind it. -/
def draftOf : Qualifier → (key remainder value : String) → Except DialectError Draft
  | .camelContext => camelContext
  | .event => event
  | .exchange => exchange
  | .endpoint => endpoint

/-- The policy of a key whose qualifier is already cut off. -/
def policyOf (qualifier : Qualifier) (key remainder value : String) :
    Except DialectError Policy := do
  let draft ← draftOf qualifier key remainder value
  policy draft.action draft.scopes key

/-- The text that stands in for a value that is none while its key is looked at.
A value that says nothing counts as empty where a text may not be empty. -/
def standIn (qualifier : Qualifier) (value : Value) : String :=
  if value.isTrue ∨ qualifier = .camelContext then "*" else ""

/-- The policy of a key with a value of any kind. What is wrong with the key is
told before what is wrong with the kind of the value. -/
def policyOfValue (qualifier : Qualifier) (key remainder : String) :
    Value → Except DialectError Policy
  | .string text => policyOf qualifier key remainder text
  | value => do
    let _ ← policyOf qualifier key remainder (standIn qualifier value)
    if qualifier = .camelContext then
      throw (.patternsNotText (.noMember value.fullKindName "split"))
    else throw .expressionNotText

/-- A value that is no text makes no policy. -/
theorem policyOfValue_ne_ok {qualifier : Qualifier} {key remainder : String} {value : Value}
    (h : value.asText? = none) (policy : Policy) :
    policyOfValue qualifier key remainder value ≠ .ok policy := by
  unfold policyOfValue
  split
  · simp [Value.asText?] at h
  · intro made
    cases standing : policyOf qualifier key remainder (standIn qualifier value) with
    | error error => simp [standing, bind, Except.bind] at made
    | ok other =>
      simp only [standing, bind, Except.bind] at made
      split at made <;> cases made

end Dialect

end EventPolicy
