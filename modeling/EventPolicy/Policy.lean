import EventPolicy.Scope.Basic

/-!
Policies and policy sets. A policy includes or excludes the events that match
all of its scopes; a policy set keeps the policies in the order of their keys.
-/

namespace EventPolicy

/-- An action on the events that match every scope, and the key that the
policy was compiled from. -/
structure Policy where
  action : Action
  scopes : List Scope
  sourceKey : Option String
  deriving DecidableEq

/-- What can be wrong with the scopes of a policy. -/
inductive PolicyFault where
  | noScopes
  | duplicateScopes
  deriving DecidableEq, Repr

def PolicyFault.message : PolicyFault → String
  | .noScopes => "Tuple should have at least 1 item after validation, not 0"
  | .duplicateScopes => "policy scopes must not contain duplicates"

namespace Policy

/-- What is wrong with a policy, if anything is. Scopes are repeated if they have
fewer different signatures than there are scopes. -/
def fault? (policy : Policy) : Option PolicyFault :=
  let different := (policy.scopes.map Scope.signature).eraseDups
  if policy.scopes = [] then some .noScopes
  else if different.length ≠ policy.scopes.length then some .duplicateScopes
  else none

/-- The policy itself, if nothing is wrong with it. -/
def checked (policy : Policy) : Except PolicyFault Policy :=
  match policy.fault? with
  | some fault => .error fault
  | none => .ok policy

/-- A policy of the scopes without the redundant ones. -/
def build (action : Action) (scopes : List Scope) (sourceKey : Option String) :
    Except PolicyFault Policy :=
  checked ⟨action, Scope.prune scopes, sourceKey⟩

def isExclude (policy : Policy) : Bool := policy.action = .excludes

def scopesFor (policy : Policy) (element : Element) : List Scope :=
  policy.scopes.filter (·.element = element)

/-- A policy comes through the check exactly when nothing is wrong with it. -/
theorem checked_eq_ok_iff {policy result : Policy} :
    policy.checked = .ok result ↔ policy.fault? = none ∧ result = policy := by
  unfold checked
  cases policy.fault? with
  | none => simp [eq_comm]
  | some fault => simp

end Policy

/-- Compiled policies in order. -/
structure PolicySet where
  policies : List Policy
  deriving DecidableEq

namespace PolicySet

def size (set : PolicySet) : Nat := set.policies.length

/-- The policy at a place; a negative place counts from the end. -/
def get? (set : PolicySet) (place : Int) : Option Policy :=
  if 0 ≤ place then set.policies[place.toNat]?
  else if place.natAbs ≤ set.size then set.policies[set.size - place.natAbs]?
  else none

def includes (set : PolicySet) : List Policy := set.policies.filter (·.action = .includes)

def excludes (set : PolicySet) : List Policy := set.policies.filter (·.action = .excludes)

/-- The policies with a scope on an element. -/
def byElement (set : PolicySet) (element : Element) : List Policy :=
  set.policies.filter fun policy => !(policy.scopesFor element).isEmpty

end PolicySet

end EventPolicy
