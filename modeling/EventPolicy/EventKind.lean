import EventPolicy.Text.LetterCase

/-!
The kinds of events that a context raises, and their resolution from a word of
a policy key. A word names the kind whose name is the word in capitals.
-/

namespace EventPolicy

/-- A kind of event: the life of a context, of a route or of an exchange. -/
inductive EventKind where
  | contextStarted
  | contextStopped
  | routeAdded
  | routeRemoved
  | routeStart
  | routeComplete
  | exchangeCreated
  | exchangeCompleted
  | exchangeFailed
  | exchangeFailureHandled
  | exchangeRedelivery
  | exchangeSending
  | exchangeSent
  deriving DecidableEq, Repr

namespace EventKind

def name : EventKind → String
  | .contextStarted => "CONTEXTSTARTED"
  | .contextStopped => "CONTEXTSTOPPED"
  | .routeAdded => "ROUTEADDED"
  | .routeRemoved => "ROUTEREMOVED"
  | .routeStart => "ROUTESTART"
  | .routeComplete => "ROUTECOMPLETE"
  | .exchangeCreated => "EXCHANGECREATED"
  | .exchangeCompleted => "EXCHANGECOMPLETED"
  | .exchangeFailed => "EXCHANGEFAILED"
  | .exchangeFailureHandled => "EXCHANGEFAILUREHANDLED"
  | .exchangeRedelivery => "EXCHANGEREDELIVERY"
  | .exchangeSending => "EXCHANGESENDING"
  | .exchangeSent => "EXCHANGESENT"

/-- The spelling of a kind, in small letters. -/
def spelling : EventKind → String
  | .contextStarted => "contextstarted"
  | .contextStopped => "contextstopped"
  | .routeAdded => "routeadded"
  | .routeRemoved => "routeremoved"
  | .routeStart => "routestart"
  | .routeComplete => "routecomplete"
  | .exchangeCreated => "exchangecreated"
  | .exchangeCompleted => "exchangecompleted"
  | .exchangeFailed => "exchangefailed"
  | .exchangeFailureHandled => "exchangefailurehandled"
  | .exchangeRedelivery => "exchangeredelivery"
  | .exchangeSending => "exchangesending"
  | .exchangeSent => "exchangesent"

def all : List EventKind :=
  [.contextStarted, .contextStopped, .routeAdded, .routeRemoved, .routeStart, .routeComplete,
   .exchangeCreated, .exchangeCompleted, .exchangeFailed, .exchangeFailureHandled,
   .exchangeRedelivery, .exchangeSending, .exchangeSent]

/-- The kind that a word names, if it names one. -/
def resolve? (word : String) : Option EventKind := do
  let capitals ← Text.asciiUpper? word
  all.find? (·.name = capitals)

theorem mem_all (kind : EventKind) : kind ∈ all := by cases kind <;> decide

theorem name_injective {a b : EventKind} (h : a.name = b.name) : a = b := by
  have found (k : EventKind) : all.find? (·.name = k.name) = some k := by cases k <;> decide
  exact Option.some.inj ((found a).symm.trans (h ▸ found b))

/-- A word names a kind exactly when its capitals are the kind's name. -/
theorem resolve?_eq_some_iff {word : String} {kind : EventKind} :
    resolve? word = some kind ↔ Text.asciiUpper? word = some kind.name := by
  have found (k : EventKind) : all.find? (·.name = k.name) = some k := by cases k <;> decide
  simp only [resolve?, Option.bind_eq_bind, Option.bind_eq_some_iff]
  constructor
  · rintro ⟨capitals, upper, member⟩
    have named : kind.name = capitals := by simpa using List.find?_some member
    exact named ▸ upper
  · intro upper
    exact ⟨kind.name, upper, found kind⟩

end EventKind

end EventPolicy
